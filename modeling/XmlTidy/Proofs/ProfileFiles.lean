import XmlTidy.Command.Run
import XmlTidy.Proofs.Overrides

/-!
Profiles from files. Whatever a file holds, it gives a profile that passed all checks or a fault. A fault is reported,
and the run ends with exit code 2, unless the file has one of three shapes that nothing was provided for: a preset that
is a list or an object, and, beside the name of a preset, a section that is no object or a value under the reserved
key. The faults of these, and no others, leave the run without an outcome.
-/

namespace XmlTidy

/-! ### Keys -/

namespace Members

variable {α : Type} {members : Members α} {key : String}

theorem isSome_find?_iff : (members.find? key).isSome = true ↔ key ∈ members.map Prod.fst := by
  have hnone := @find?_eq_none_iff α members key
  cases h : members.find? key with
  | none => simpa using hnone.1 h
  | some value =>
      rw [h] at hnone
      simpa using hnone

theorem find?_erase (key' : String) :
    (members.erase key).find? key' = if key' = key then none else members.find? key' := by
  induction members with
  | nil => simp [erase, find?]
  | cons x members ih =>
      obtain ⟨k, v⟩ := x
      rw [erase] at ih ⊢
      rw [List.filter_cons, find?_cons]
      by_cases hk : k = key
      · simp only [hk, bne_self_eq_false, Bool.false_eq_true, if_false, ih]
        by_cases hkey : key' = key
        · rw [if_pos hkey, if_pos hkey]
        · rw [if_neg hkey, if_neg hkey, if_neg hkey]
      · have hbne : (k != key) = true := by simpa using hk
        simp only [hbne, if_true, find?_cons, ih]
        by_cases hkey : key' = k
        · rw [if_pos hkey, if_neg (hkey ▸ hk)]
          simp [hkey]
        · simp [hkey]

theorem mem_keys_insert {value : α} {key' : String} :
    key' ∈ (members.insert key value).map Prod.fst ↔ key' = key ∨ key' ∈ members.map Prod.fst := by
  rw [← isSome_find?_iff, ← isSome_find?_iff, find?_insert]
  by_cases h : key' = key
  · simp [h]
  · simp [h]

theorem mem_keys_ofList {pairs : List (String × α)} : key ∈ (ofList pairs).map Prod.fst ↔ key ∈ pairs.map Prod.fst := by
  have hfold : ∀ before : Members α, key ∈ (pairs.foldl (fun members x => members.insert x.1 x.2) before).map Prod.fst ↔
      key ∈ before.map Prod.fst ∨ key ∈ pairs.map Prod.fst := by
    induction pairs with
    | nil => simp
    | cons x pairs ih =>
        intro before
        rw [List.foldl_cons, ih, mem_keys_insert, List.map_cons, List.mem_cons, or_comm (a := key = x.1), or_assoc]
  exact (hfold []).trans (by simp)

end Members

theorem error_of_bind {ε α β : Type} {x : Except ε α} {f : α → Except ε β} {e : ε} (h : x >>= f = .error e) :
    x = .error e ∨ ∃ a, x = .ok a ∧ f a = .error e := by
  cases x with
  | error e' =>
      cases h
      exact .inl rfl
  | ok a => exact .inr ⟨a, rfl, h⟩

/-- Whether a computation ends with a fault. -/
def failsWith {ε α : Type} [DecidableEq ε] (fault : ε) : Except ε α → Bool
  | .error e => decide (e = fault)
  | .ok _ => false

theorem eq_error_of_failsWith {ε α : Type} [DecidableEq ε] {fault : ε} {x : Except ε α}
    (h : failsWith fault x = true) : x = .error fault := by
  cases x with
  | error e => rw [of_decide_eq_true h]
  | ok a => cases h

/-! ### Kinds of values -/

namespace Json

def isObject : Json → Bool
  | .obj _ => true
  | _ => false

/-- Whether a value holds others. -/
def isCompound : Json → Bool
  | .arr _ | .obj _ => true
  | _ => false

end Json

theorem Section.key_of_ofKey? {key : String} {s : Section} (h : ofKey? key = some s) : s.key = key := by
  simpa using List.find?_some h

namespace Profile

variable {p q : Profile} {members : Members Json} {pairs : List (String × Json)} {fault : ProfileFault}

/-! ### Faults that are found in time -/

theorem foreseen_of_assignTop {level : Json} (h : p.assignTop level pairs = .error fault) :
    fault.isUnassignable = false := by
  fun_induction assignTop p level pairs with
  | case1 => cases h
  | case2 =>
      cases h
      rfl
  | case3 _ _ _ _ ih => exact ih h
  | case4 _ _ _ _ _ ih => exact ih h
  | case5 =>
      cases h
      rfl

theorem foreseen_of_makeSection {s : Section} (h : makeSection members s = .error fault) :
    fault.isUnassignable = false := by
  rw [makeSection, sectionFields] at h
  split at h
  · next e he =>
      cases h
      split at he
      · cases he
      · cases he
      · cases he
        rfl
  · next fields _ =>
      cases hmake : s.make fields with
      | ok values =>
          rw [hmake] at h
          cases h
      | error e =>
          rw [hmake] at h
          cases h
          rfl

theorem foreseen_of_ofMembers (h : ofMembers members = .error fault) : fault.isUnassignable = false := by
  rw [ofMembers] at h
  split at h
  · next he =>
      cases h
      exact foreseen_of_makeSection he
  · split at h
    · next he =>
        cases h
        exact foreseen_of_makeSection he
    · exact foreseen_of_assignTop h

theorem foreseen_of_overrideSection {s : Section} (h : p.overrideSection members s = .error fault) :
    fault.isUnassignable = false := by
  rw [overrideSection] at h
  split at h
  · split at h
    · cases h
      rfl
    · cases h
  · cases h

/-- Overrides under keys that are no sections can be gathered: what is known of a section is always an object. -/
theorem foreseen_of_gather (hkeys : ∀ key ∈ pairs.map Prod.fst, Section.ofKey? key = none)
    (hobjects : ∀ s value, members.find? (Section.key s) = some value → value.isObject = true)
    (h : gather members pairs = .error fault) : fault.isUnassignable = false := by
  induction pairs generalizing members with
  | nil => cases h
  | cons x pairs ih =>
      obtain ⟨key, value⟩ := x
      obtain ⟨hkey, hrest⟩ := List.forall_mem_cons.1 hkeys
      have hinsert : ∀ component fields, ∀ s value,
          (members.insert component (.obj fields)).find? (Section.key s) = some value → value.isObject = true := by
        intro component fields s value hfind
        rw [Members.find?_insert] at hfind
        split at hfind
        · cases hfind
          rfl
        · exact hobjects s value hfind
      rw [gather] at h
      split at h
      · refine ih hrest (fun s value' hfind => ?_) h
        have hne : s.key ≠ key := by
          rintro rfl
          rw [ofKey?_key] at hkey
          cases hkey
        rw [Members.find?_insert, if_neg hne] at hfind
        exact hobjects s value' hfind
      · next component field _ =>
          dsimp only at h
          split at h
          · cases h
            rfl
          · next hcomponent =>
              split at h
              · exact ih hrest (hinsert _ _) h
              · exact ih hrest (hinsert _ _) h
              · next other hother hfind =>
                  obtain ⟨s, hs⟩ := Option.ne_none_iff_exists'.1 (by simpa using hcomponent)
                  have hobject := hobjects s other (by rw [Section.key_of_ofKey? hs, hfind])
                  cases other with
                  | obj fields => exact absurd rfl (hother fields)
                  | _ => cases hobject

/-- No value can be given under the reserved key. -/
theorem override_of_reserved (h : SettingFault.reservedKey ∈ pairs.map Prod.fst) :
    p.override pairs = .error .unassignable := by
  have hfind : (Members.find? (Members.ofList pairs) SettingFault.reservedKey).isSome = true :=
    Members.isSome_find?_iff.2 (Members.mem_keys_ofList.2 h)
  simp only [override, hfind]
  rfl

/-- Overrides are gathered, then each section is given its own, and the profile last. -/
theorem override_of_not_reserved (h : SettingFault.reservedKey ∉ pairs.map Prod.fst) :
    p.override pairs = (gather [] (Members.ofList pairs) >>= fun gathered =>
      p.overrideSection gathered .printer >>= fun p =>
        p.overrideSection gathered .layout >>= fun p => p.assignTop (.str p.level.key) (topFields gathered)) := by
  have hfind : Members.find? (Members.ofList pairs) SettingFault.reservedKey = none :=
    Members.find?_eq_none_iff.2 fun hmem => h (Members.mem_keys_ofList.1 hmem)
  simp only [override, hfind, Option.isSome_none]
  rfl

theorem foreseen_of_override (hkeys : ∀ key ∈ pairs.map Prod.fst, Section.ofKey? key = none)
    (hreserved : SettingFault.reservedKey ∉ pairs.map Prod.fst) (h : p.override pairs = .error fault) :
    fault.isUnassignable = false := by
  rw [override_of_not_reserved hreserved] at h
  rcases error_of_bind h with h | ⟨gathered, -, h⟩
  · exact foreseen_of_gather (fun key hkey => hkeys key (Members.mem_keys_ofList.1 hkey)) (by simp [Members.find?]) h
  · rcases error_of_bind h with h | ⟨p', -, h⟩
    · exact foreseen_of_overrideSection h
    · rcases error_of_bind h with h | ⟨p'', -, h⟩
      · exact foreseen_of_overrideSection h
      · exact foreseen_of_assignTop h

/-! ### Profiles that come out -/

theorem Checked.of_eq (h : p.Checked) (hprinter : q.printer = p.printer) (hlayout : q.layout = p.layout) :
    q.Checked := by
  intro s
  obtain ⟨values, hvalues⟩ := h s
  refine ⟨values, hvalues.trans (congrArg _ ?_)⟩
  cases s with
  | printer => exact hprinter.symm
  | layout => exact hlayout.symm

theorem sections_of_assignTop {level : Json} (h : p.assignTop level pairs = .ok q) :
    q.printer = p.printer ∧ q.layout = p.layout := by
  fun_induction assignTop p level pairs with
  | case1 =>
      cases h
      exact ⟨rfl, rfl⟩
  | case2 => cases h
  | case3 _ _ _ _ ih => exact ih h
  | case4 _ _ _ _ _ ih => exact ih h
  | case5 => cases h

theorem Checked.assignTop (hp : p.Checked) {level : Json} (h : p.assignTop level pairs = .ok q) : q.Checked := by
  obtain ⟨hprinter, hlayout⟩ := sections_of_assignTop h
  exact hp.of_eq hprinter hlayout

/-- A section is made by its check. -/
theorem exists_check_of_replace {s : Section} {values checked : Values} (h : s.replace values pairs = .ok checked) :
    ∃ values', s.check values' = .ok checked := by
  rw [Section.replace] at h
  split at h
  · cases h
  · exact ⟨_, h⟩

theorem get_set (p : Profile) (s : Section) (values : Values) (s' : Section) :
    (p.set s values).get s' = if s' = s then values else p.get s' := by
  cases s <;> cases s' <;> rfl

theorem Checked.overrideSection (hp : p.Checked) {s : Section} (h : p.overrideSection members s = .ok q) :
    q.Checked := by
  rw [Profile.overrideSection] at h
  split at h
  · split at h
    · cases h
    · next values hreplace =>
        cases h
        intro s'
        rw [get_set]
        split
        · next hs =>
            subst hs
            exact exists_check_of_replace hreplace
        · exact hp s'
  · cases h
    exact hp

theorem Checked.override (hp : p.Checked) (h : p.override pairs = .ok q) : q.Checked := by
  by_cases hreserved : SettingFault.reservedKey ∈ pairs.map Prod.fst
  · rw [override_of_reserved hreserved] at h
    cases h
  · rw [override_of_not_reserved hreserved] at h
    obtain ⟨gathered, -, h⟩ := exists_of_bind_eq_ok h
    obtain ⟨p', hp', h⟩ := exists_of_bind_eq_ok h
    obtain ⟨p'', hp'', h⟩ := exists_of_bind_eq_ok h
    exact ((hp.overrideSection hp').overrideSection hp'').assignTop h

theorem exists_check_of_makeSection {s : Section} {values : Values} (h : makeSection members s = .ok values) :
    ∃ values', s.check values' = .ok values := by
  rw [makeSection] at h
  split at h
  · cases h
  · exact exists_check_of_replace (eq_ok_of_mapError h)

theorem checked_of_ofMembers (h : ofMembers members = .ok p) : p.Checked := by
  rw [ofMembers] at h
  split at h
  · cases h
  · next printer hprinter =>
      split at h
      · cases h
      · next layout hlayout =>
          have hmade : Checked { printer, layout } := by
            intro s
            cases s with
            | printer => exact exists_check_of_makeSection hprinter
            | layout => exact exists_check_of_makeSection hlayout
          exact hmade.assignTop h

theorem checked_of_preset {name : String} (h : presets.find? name = some p) : p.Checked := by
  have hkeys : (presets.map Prod.fst).Nodup := by decide
  rw [Members.find?_eq_some_iff hkeys, presets] at h
  have hlayout : ∀ printer name, Section.layout.check (get { printer, name } .layout) = .ok Setting.default :=
    fun _ _ => checkLayout_iff.2 ⟨rfl, rfl, rfl, fun _ _ => rfl⟩
  simp only [List.mem_cons, Prod.mk.injEq, List.not_mem_nil, or_false] at h
  rcases h with ⟨-, rfl⟩ | ⟨-, rfl⟩ | ⟨-, rfl⟩
  · exact checked_default.of_eq rfl rfl
  · intro s
    refine ⟨readable.get s, ?_⟩
    cases s with
    | printer => exact checkPrinter_iff.2 ⟨rfl, rfl, rfl, rfl, rfl, fun _ _ _ => rfl⟩
    | layout => exact hlayout _ _
  · intro s
    refine ⟨canonical.get s, ?_⟩
    cases s with
    | printer => exact checkPrinter_iff.2 ⟨rfl, rfl, rfl, rfl, rfl, fun _ _ _ => rfl⟩
    | layout => exact hlayout _ _

/-! ### Files -/

/-- What a file leads to, if its shape is unforeseen or not: a checked profile, or a fault that says which of the two it
is. -/
def Tells (unforeseen : Prop) : Except LoadFault Profile → Prop
  | .ok p => p.Checked ∧ ¬ unforeseen
  | .error fault => fault.isShape = true ↔ unforeseen

/-- An object gives a section overrides under the keys of settings, unless it has something else for it. -/
theorem sectionOverrides_cases (members : Members Json) (s : Section) :
    (∃ pairs, sectionOverrides members s = .ok pairs ∧
      (∀ key ∈ pairs.map Prod.fst, ∃ name, key = s.key ++ "__" ++ name) ∧
      ∀ value, members.find? s.key = some value → value.isObject = true) ∨
    sectionOverrides members s = .error .misplacedSection ∧
      ∃ value, members.find? s.key = some value ∧ value.isObject = false := by
  rw [sectionOverrides]
  cases hfind : members.find? s.key with
  | none => exact .inl ⟨[], rfl, by simp, by simp⟩
  | some value =>
      cases value with
      | obj fields =>
          refine .inl ⟨_, rfl, fun key hkey => ?_, ?_⟩
          · rw [List.map_map] at hkey
            obtain ⟨x, -, rfl⟩ := List.mem_map.1 hkey
            exact ⟨x.1, rfl⟩
          · rintro _ ⟨⟩
            rfl
      | _ => exact .inr ⟨rfl, _, rfl, rfl⟩

/-- The key of a setting is neither a section nor the reserved key. -/
theorem ofKey?_join (s : Section) (name : String) : Section.ofKey? (s.key ++ "__" ++ name) = none := by
  cases h : Section.ofKey? (s.key ++ "__" ++ name) with
  | none => rfl
  | some s' =>
      have hsplit := splitKey?_key s'
      rw [Section.key_of_ofKey? h, splitKey?_join] at hsplit
      cases hsplit

theorem join_ne_reservedKey (s : Section) (name : String) : SettingFault.reservedKey ≠ s.key ++ "__" ++ name := by
  intro h
  have hplain : splitKey? SettingFault.reservedKey.toList = none := by decide
  rw [h, splitKey?_join] at hplain
  cases hplain

section Overrides

/-- Overrides under the keys of settings. -/
def Joined (pairs : List (String × Json)) : Prop :=
  ∀ key ∈ pairs.map Prod.fst, ∃ s name, key = Section.key s ++ "__" ++ name

variable (hpairs : Joined pairs)
include hpairs

theorem Joined.ofKey?_eq_none {key : String} (h : key ∈ (Members.ofList (pairs ++ topFields members)).map Prod.fst) :
    Section.ofKey? key = none := by
  rw [Members.mem_keys_ofList, List.map_append, List.mem_append] at h
  rcases h with h | h
  · obtain ⟨s, name, rfl⟩ := hpairs key h
    exact ofKey?_join s name
  · obtain ⟨x, hx, rfl⟩ := List.mem_map.1 h
    simpa using (List.mem_filter.1 hx).2

theorem Joined.reservedKey_mem_iff :
    SettingFault.reservedKey ∈ (Members.ofList (pairs ++ topFields members)).map Prod.fst ↔
      (members.find? SettingFault.reservedKey).isSome = true := by
  rw [Members.mem_keys_ofList, Members.isSome_find?_iff, List.map_append, List.mem_append]
  constructor
  · rintro (h | h)
    · obtain ⟨s, name, hname⟩ := hpairs _ h
      exact absurd hname (join_ne_reservedKey s name)
    · exact ((List.filter_sublist).map Prod.fst).subset h
  · intro h
    obtain ⟨⟨key, value⟩, hx, rfl⟩ := List.mem_map.1 h
    have hplain : (Section.ofKey? SettingFault.reservedKey).isNone = true := by decide
    exact .inr (List.mem_map.2 ⟨_, List.mem_filter.2 ⟨hx, hplain⟩, rfl⟩)

/-- With overrides that were gathered, only the reserved key is unforeseen. -/
theorem Joined.tells (hp : p.Checked) (members : Members Json) :
    Tells ((members.find? SettingFault.reservedKey).isSome = true)
      (if (Members.ofList (pairs ++ topFields members)).isEmpty then .ok p
        else (p.override (Members.ofList (pairs ++ topFields members))).mapError .profile) := by
  rw [← hpairs.reservedKey_mem_iff]
  have hkeys := fun key => @Joined.ofKey?_eq_none members pairs hpairs key
  generalize Members.ofList (pairs ++ topFields members) = overrides at hkeys ⊢
  split
  · next hempty =>
      rw [List.isEmpty_iff.1 hempty]
      exact ⟨hp, List.not_mem_nil⟩
  · by_cases h : SettingFault.reservedKey ∈ overrides.map Prod.fst
    · rw [override_of_reserved h]
      exact ⟨fun _ => h, fun _ => rfl⟩
    · cases hoverride : p.override overrides with
      | ok q => exact ⟨hp.override hoverride, h⟩
      | error fault =>
          have hforeseen : (LoadFault.profile fault).isShape = false := foreseen_of_override hkeys h hoverride
          exact ⟨fun hshape => absurd hshape (by simp [hforeseen]), fun h' => absurd h' h⟩

end Overrides

theorem tells_overridden (hp : p.Checked) (members : Members Json) :
    Tells ((∃ s value, members.find? (Section.key s) = some value ∧ value.isObject = false) ∨
      (members.find? SettingFault.reservedKey).isSome = true) (overridden p members) := by
  rcases sectionOverrides_cases members .printer with
    ⟨printer, hprinter, hprinterKeys, hprinterObject⟩ | ⟨hprinter, value, hmisplaced⟩
  · rcases sectionOverrides_cases members .layout with
      ⟨layout, hlayout, hlayoutKeys, hlayoutObject⟩ | ⟨hlayout, value, hmisplaced⟩
    · have hobjects : ¬ ∃ s value, members.find? (Section.key s) = some value ∧ value.isObject = false := by
        rintro ⟨s, value, hfind, hobject⟩
        cases s with
        | printer => simp [hprinterObject value hfind] at hobject
        | layout => simp [hlayoutObject value hfind] at hobject
      have hjoined : Joined (printer ++ layout) := by
        intro key hkey
        rw [List.map_append, List.mem_append] at hkey
        rcases hkey with hkey | hkey
        · exact ⟨.printer, hprinterKeys key hkey⟩
        · exact ⟨.layout, hlayoutKeys key hkey⟩
      simp only [overridden, hprinter, hlayout, bind, Except.bind]
      rw [or_iff_right hobjects]
      exact hjoined.tells hp members
    · simp only [overridden, hprinter, hlayout, bind, Except.bind]
      exact ⟨fun _ => .inl ⟨.layout, value, hmisplaced⟩, fun _ => rfl⟩
  · simp only [overridden, hprinter, bind, Except.bind]
    exact ⟨fun _ => .inl ⟨.printer, value, hmisplaced⟩, fun _ => rfl⟩

/-- Whether members name one of the presets. -/
def NamesPreset (members : Members Json) : Prop :=
  ∃ name, members.find? presetKey = some (.str name) ∧ (presets.find? name).isSome = true

/-- Members of a shape that nothing was provided for. -/
inductive Unforeseen (members : Members Json) : Prop where
  | preset {value : Json} (h : members.find? presetKey = some value) (hvalue : value.isCompound = true)
  | inSection (hpreset : NamesPreset members) {s : Section} {value : Json} (h : members.find? s.key = some value)
      (hvalue : value.isObject = false)
  | reserved (hpreset : NamesPreset members) (h : (members.find? SettingFault.reservedKey).isSome = true)

theorem unforeseen_iff (hpreset : NamesPreset members) :
    Unforeseen members ↔ (∃ s value, members.find? (Section.key s) = some value ∧ value.isObject = false) ∨
      (members.find? SettingFault.reservedKey).isSome = true := by
  constructor
  · rintro (⟨h, hvalue⟩ | ⟨-, h, hvalue⟩ | ⟨-, h⟩)
    · obtain ⟨name, hname, -⟩ := hpreset
      cases hname.symm.trans h
      cases hvalue
    · exact .inl ⟨_, _, h, hvalue⟩
    · exact .inr h
  · rintro (⟨s, value, h, hvalue⟩ | h)
    · exact .inSection hpreset h hvalue
    · exact .reserved hpreset h

theorem not_unforeseen (hpreset : ¬ NamesPreset members)
    (hvalue : ∀ value, members.find? presetKey = some value → value.isCompound = false) : ¬ Unforeseen members := by
  rintro (⟨h, hcompound⟩ | ⟨hnames, -⟩ | ⟨hnames, -⟩)
  · simp [hvalue _ h] at hcompound
  · exact hpreset hnames
  · exact hpreset hnames

theorem tells_ofMembers {unforeseen : Prop} (h : ¬ unforeseen) (members : Members Json) :
    Tells unforeseen ((ofMembers members).mapError .profile) := by
  cases hmembers : ofMembers members with
  | ok p => exact ⟨checked_of_ofMembers hmembers, h⟩
  | error fault =>
      have hforeseen : (LoadFault.profile fault).isShape = false := foreseen_of_ofMembers hmembers
      exact iff_of_false (by simp [hforeseen]) h

theorem tells_ofFileMembers (path : String) (members : Members Json) :
    Tells (Unforeseen members) (ofFileMembers path members) := by
  rw [ofFileMembers]
  cases hfind : members.find? presetKey with
  | none => exact tells_ofMembers (not_unforeseen (by simp [NamesPreset, hfind]) (by simp [hfind])) _
  | some value =>
      cases value with
      | arr items => exact ⟨fun _ => .preset hfind rfl, fun _ => rfl⟩
      | obj fields => exact ⟨fun _ => .preset hfind rfl, fun _ => rfl⟩
      | scalar s =>
          have hnot : ¬ Unforeseen members := by
            refine not_unforeseen (by simp [NamesPreset, hfind]) ?_
            rw [hfind]
            rintro _ ⟨⟩
            rfl
          cases s with
          | null => exact tells_ofMembers hnot _
          | _ => exact iff_of_false (by simp [LoadFault.isShape]) hnot
      | str name =>
          cases hpreset : presets.find? name with
          | none =>
              simp only [hpreset]
              refine iff_of_false (by simp [LoadFault.isShape]) (not_unforeseen ?_ ?_)
              · rintro ⟨name', hname', hsome⟩
                cases hfind.symm.trans hname'
                simp [hpreset] at hsome
              · rw [hfind]
                rintro _ ⟨⟩
                rfl
          | some preset =>
              have hnames : NamesPreset members := ⟨name, hfind, by rw [hpreset, Option.isSome_some]⟩
              have hothers : ∀ key, key ≠ presetKey → (members.erase presetKey).find? key = members.find? key :=
                fun key hkey => by rw [Members.find?_erase, if_neg hkey]
              have hsections : ∀ s : Section, (members.erase presetKey).find? s.key = members.find? s.key := by
                intro s
                exact hothers _ (by cases s <;> decide)
              have htells := tells_overridden (checked_of_preset hpreset) (members.erase presetKey)
              simp only [hsections, hothers _ (show SettingFault.reservedKey ≠ presetKey by decide)] at htells
              rw [← unforeseen_iff hnames] at htells
              simp only [hpreset]
              exact htells

/-- Contents of a file of a shape that nothing was provided for. -/
def UnforeseenIn (content : Except String Text) : Prop :=
  ∃ t members, content = .ok t ∧ Json.read t = .ok (.obj members) ∧ Unforeseen members

theorem tells_ofFile (path : String) (content : Except String Text) :
    Tells (UnforeseenIn content) (ofFile path content) := by
  cases content with
  | error reason =>
      refine iff_of_false (by simp [LoadFault.isShape]) ?_
      rintro ⟨t, members, ⟨⟩, -⟩
  | ok t =>
      have hnot : ∀ outcome, Json.read t = outcome → (∀ members, outcome ≠ .ok (.obj members)) →
          ¬ UnforeseenIn (.ok t) := by
        rintro outcome hread hno ⟨t', members, ⟨⟩, hmembers, -⟩
        exact hno members (hread.symm.trans hmembers)
      cases hread : Json.read t with
      | error fault =>
          simp only [ofFile, hread]
          exact iff_of_false (by simp [LoadFault.isShape]) (hnot _ hread (by simp))
      | ok value =>
          cases value with
          | obj members =>
              have hiff : UnforeseenIn (.ok t) ↔ Unforeseen members := by
                constructor
                · rintro ⟨t', members', ⟨⟩, hmembers, h⟩
                  cases hread.symm.trans hmembers
                  exact h
                · exact fun h => ⟨t, members, rfl, hread, h⟩
              rw [hiff]
              simp only [ofFile, hread]
              exact tells_ofFileMembers path members
          | _ =>
              simp only [ofFile, hread]
              exact iff_of_false (by simp [LoadFault.isShape]) (hnot _ hread (by simp))

end Profile

/-! ### Runs -/

/-- A run without a profile. -/
theorem run_of_profile {texts : List Text} {a : Arguments} {tree : FileTree} {fault : LoadFault}
    (hread : Arguments.read texts = .ok a) (hprofile : a.profile tree = .error fault) :
    run texts tree =
      if fault.isShape then .error (.shape fault)
      else .ok { exit := 2, output := [], messages := [.refused fault], tree } := by
  have hargs : (Arguments.read texts).mapError Halt.stop = .ok a := by
    rw [hread]
    rfl
  simp only [run, hargs, bind, Except.bind, hprofile]
  split
  · rfl
  · rfl

theorem Arguments.profile_of_ofFile {a : Arguments} {config : Path} (hconfig : a.config = some config) {tree : FileTree}
    {fault : LoadFault} (h : Profile.ofFile (String.ofList config.image) (readText tree config) = .error fault) :
    a.profile tree = .error fault := by
  simp only [profile, hconfig, h]
  rfl

namespace Profile

/-- A preset with a number for a section beside it. -/
def misplacedText : Text := "\x7b\"preset\": \"strict\", \"printer\": 5\x7d".toList

end Profile

end XmlTidy
