import XmlTidy.Proofs.Sections
import XmlTidy.Settings.Override

/-!
Overrides and their order. An override gives a value to one field, a setting of a section or of the profile itself, or
it gives a section an object of values. Such an object takes the place of all that was given to its section
before, so a setting that is given by itself in front of the object is lost; all other overrides survive. What
comes out depends on the overrides that survive and not on their order: each field they address has the value that it
was given, and every other field keeps its own.
-/

namespace XmlTidy

/-! ### Members under different keys -/

namespace Members

variable {α : Type} {members others : Members α} {key : String} {value : α}

theorem find?_eq_none_iff : members.find? key = none ↔ key ∉ members.map Prod.fst := by
  rw [find?, List.lookup_eq_none_iff]
  constructor
  · intro h hmem
    obtain ⟨x, hx, rfl⟩ := List.mem_map.1 hmem
    simpa using h x hx
  · intro h x hx
    have hne : key ≠ x.1 := fun heq => h (List.mem_map.2 ⟨x, hx, heq.symm⟩)
    simpa using hne

theorem find?_cons (k : String) (v : α) (members : Members α) (key : String) :
    find? ((k, v) :: members) key = if key = k then some v else members.find? key := by
  by_cases h : key = k
  · simp [find?, h]
  · have hbeq : (key == k) = false := by simpa using h
    simp [find?, List.lookup_cons, hbeq, h]

/-- Under different keys, each key has the value it comes with. -/
theorem find?_eq_some_iff (hkeys : (members.map Prod.fst).Nodup) :
    members.find? key = some value ↔ (key, value) ∈ members := by
  induction members with
  | nil => simp [find?]
  | cons x members ih =>
      obtain ⟨k, v⟩ := x
      rw [List.map_cons, List.nodup_cons] at hkeys
      rw [find?_cons, List.mem_cons, Prod.mk.injEq]
      by_cases hk : key = k
      · have hnot : (key, value) ∉ members := fun hmem => hkeys.1 (List.mem_map.2 ⟨_, hmem, hk⟩)
        simp [hk, hk ▸ hnot, eq_comm]
      · simp [hk, ih hkeys.2]

theorem find?_perm (h : members.Perm others) (hkeys : (members.map Prod.fst).Nodup) (key : String) :
    members.find? key = others.find? key := by
  have hkeys' : (others.map Prod.fst).Nodup := (h.map Prod.fst).nodup hkeys
  apply Option.ext
  intro value
  rw [find?_eq_some_iff hkeys, find?_eq_some_iff hkeys', h.mem_iff]

theorem find?_insert (key' : String) :
    (members.insert key value).find? key' = if key' = key then some value else members.find? key' := by
  induction members with
  | nil => rw [insert, find?_cons]
  | cons x members ih =>
      obtain ⟨k, v⟩ := x
      rw [insert]
      by_cases hk : k = key
      · rw [if_pos hk, find?_cons, find?_cons, hk]
        split <;> rfl
      · rw [if_neg hk, find?_cons, find?_cons, ih]
        by_cases h : key' = k
        · rw [if_pos h, if_pos h, if_neg (h ▸ hk)]
        · rw [if_neg h, if_neg h]

theorem insert_of_notMem (h : key ∉ members.map Prod.fst) : members.insert key value = members ++ [(key, value)] := by
  induction members with
  | nil => rfl
  | cons x members ih =>
      rw [List.map_cons, List.mem_cons, not_or] at h
      rw [insert, if_neg (Ne.symm h.1), ih h.2, List.cons_append]

theorem ofList_eq_self {pairs : List (String × α)} (hkeys : (pairs.map Prod.fst).Nodup) : ofList pairs = pairs := by
  have hfold : ∀ before : Members α, ((before ++ pairs).map Prod.fst).Nodup →
      pairs.foldl (fun members x => members.insert x.1 x.2) before = before ++ pairs := by
    induction pairs with
    | nil => simp
    | cons x pairs ih =>
        intro before hbefore
        have hnot : x.1 ∉ before.map Prod.fst := by
          rw [List.map_append, List.map_cons] at hbefore
          exact fun hmem => (List.nodup_append.1 hbefore).2.2 _ hmem _ List.mem_cons_self rfl
        have hsplit : before ++ x :: pairs = (before ++ [x]) ++ pairs := by simp
        rw [List.foldl_cons, insert_of_notMem hnot, hsplit]
        rw [List.map_cons, List.nodup_cons] at hkeys
        rw [hsplit] at hbefore
        exact ih hkeys.2 _ hbefore
  exact hfold [] hkeys

end Members

/-! ### The fields of one owner -/

theorem Level.ofKey?_key (level : Level) : ofKey? level.key = some level := by
  cases level <;> rfl

theorem Level.eq_of_ofJson? {value : Json} {level : Level} (h : ofJson? value = some level) :
    value = .str level.key := by
  cases value with
  | str key =>
      have hkey : level.key = key := by simpa using List.find?_some (h : ofKey? key = some level)
      rw [hkey]
  | _ => cases h

/-- The fields that values are given to, for each owner. -/
abbrev FieldsByOwner := Owner → List (String × Json)

namespace Owner

/-- Whether an owner has a field of a name. -/
def knows : Owner → String → Bool
  | .oneSection s, name => (s.setting? name).isSome
  | .profile, name => name = "logging_level" || name = "name"

/-- The value that a field keeps of one that it is given. -/
def kept : Owner → String → Json → Json
  | .oneSection s, name, value => ((s.setting? name).map (·.kept value)).getD value
  | .profile, _, value => value

/-- An outcome that names a field which its owner does not have. -/
def Refuses {α : Type} (owner : Owner) (fields : List (String × Json)) (outcome : Except ProfileFault α) : Prop :=
  ∃ name ∈ fields.map Prod.fst, owner.knows name = false ∧ outcome = .error (.settings (.ofKey owner name))

/-- Whether an owner has all of some fields. -/
def knowsAll (owner : Owner) (fields : List (String × Json)) : Bool := fields.all fun x => owner.knows x.1

theorem knowsAll_of_cons {owner : Owner} {x : String × Json} {fields : List (String × Json)}
    (h : owner.knowsAll (x :: fields) = false) (hx : owner.knows x.1 = true) : owner.knowsAll fields = false := by
  rwa [knowsAll, List.all_cons, hx, Bool.true_and] at h

theorem knowsAll_of_ok {α : Type} {owner : Owner} {fields : List (String × Json)} {outcome : Except ProfileFault α}
    (hrefuses : owner.knowsAll fields = false → owner.Refuses fields outcome) {a : α} (h : outcome = .ok a) :
    owner.knowsAll fields = true := by
  cases hknows : owner.knowsAll fields with
  | true => rfl
  | false =>
      obtain ⟨name, -, -, hrefused⟩ := hrefuses hknows
      rw [h] at hrefused
      cases hrefused

/-- Outcomes of giving values to fields that are the same, but for the field that is named if their owner does not have
all of them. -/
def Agree {α : Type} (fields fields' : FieldsByOwner) (outcome outcome' : Except ProfileFault α) : Prop :=
  outcome = outcome' ∨ ∃ owner : Owner, owner.Refuses (fields owner) outcome ∧ owner.Refuses (fields' owner) outcome'

theorem Agree.of_perm {α : Type} {fields fields' : FieldsByOwner} {outcome outcome' : Except ProfileFault α}
    {owner : Owner} (hperm : (fields owner).Perm (fields' owner))
    (hrefuses : owner.knowsAll (fields owner) = false → owner.Refuses (fields owner) outcome)
    (hrefuses' : owner.knowsAll (fields' owner) = false → owner.Refuses (fields' owner) outcome')
    (hequal : owner.knowsAll (fields owner) = true → owner.knowsAll (fields' owner) = true → outcome = outcome') :
    Agree fields fields' outcome outcome' := by
  have hall : owner.knowsAll (fields owner) = owner.knowsAll (fields' owner) := hperm.all_eq
  cases hknows : owner.knowsAll (fields owner) with
  | false => exact .inr ⟨owner, hrefuses hknows, hrefuses' (hall ▸ hknows)⟩
  | true => exact .inl (hequal hknows (hall ▸ hknows))

theorem Refuses.bind {α β : Type} {owner : Owner} {fields : List (String × Json)} {x : Except ProfileFault α}
    (h : owner.Refuses fields x) (f : α → Except ProfileFault β) : owner.Refuses fields (x >>= f) := by
  obtain ⟨name, hname, hunknown, rfl⟩ := h
  exact ⟨name, hname, hunknown, rfl⟩

theorem Agree.bind {α β : Type} {fields fields' : FieldsByOwner} {x x' : Except ProfileFault α}
    {f f' : α → Except ProfileFault β} (h : Agree fields fields' x x') (hf : ∀ a, Agree fields fields' (f a) (f' a)) :
    Agree fields fields' (x >>= f) (x' >>= f') := by
  rcases h with rfl | ⟨owner, hrefuses, hrefuses'⟩
  · cases x with
    | error fault => exact .inl rfl
    | ok a => exact hf a
  · exact .inr ⟨owner, hrefuses.bind f, hrefuses'.bind f'⟩

end Owner

namespace Section

variable {s : Section} {fields fields' : Members Json} {setting : Setting} {key : String} {values : Values}

theorem setting?_key (h : setting ∈ s.settings) : s.setting? setting.key = some setting := by
  revert setting
  cases s <;> decide

theorem of_setting? (h : s.setting? key = some setting) : setting ∈ s.settings ∧ setting.key = key :=
  ⟨List.mem_of_find?_eq_some h, by simpa using List.find?_some h⟩

/-- The values of a section, with those of some fields replaced. -/
def assigned (s : Section) (values : Values) (fields : Members Json) : Values := fun setting =>
  if setting ∈ s.settings then (fields.find? setting.key).getD (values setting) else values setting

theorem assigned_cons {value : Json} (hkey : s.setting? key = some setting) (hnot : key ∉ fields.map Prod.fst) :
    s.assigned values ((key, value) :: fields) = s.assigned (values.set setting value) fields := by
  obtain ⟨hmem, rfl⟩ := of_setting? hkey
  funext other
  rw [assigned, assigned, Members.find?_cons, Values.set]
  by_cases hother : other = setting
  · rw [hother, if_pos hmem, if_pos hmem, if_pos rfl, if_pos rfl, Members.find?_eq_none_iff.2 hnot]
    rfl
  · by_cases hin : other ∈ s.settings
    · have hne : other.key ≠ setting.key := by
        intro heq
        have hsame := setting?_key hin
        rw [heq, hkey] at hsame
        exact hother (Option.some.inj hsame).symm
      rw [if_pos hin, if_pos hin, if_neg hne, if_neg hother]
    · rw [if_neg hin, if_neg hin, if_neg hother]

/-- Fields that a section has are assigned whatever their order. -/
theorem assign_of_knowsAll (hkeys : (fields.map Prod.fst).Nodup) (h : Owner.knowsAll (.oneSection s) fields = true) :
    s.assign values fields = .ok (s.assigned values fields) := by
  induction fields generalizing values with
  | nil =>
      refine congrArg Except.ok (funext fun setting => ?_)
      rw [assigned]
      split <;> rfl
  | cons x fields ih =>
      obtain ⟨key, value⟩ := x
      rw [List.map_cons, List.nodup_cons] at hkeys
      rw [Owner.knowsAll, List.all_cons, Bool.and_eq_true] at h
      obtain ⟨setting, hsetting⟩ := Option.isSome_iff_exists.1 h.1
      rw [assign, hsetting, assigned_cons hsetting hkeys.1]
      exact ih hkeys.2 h.2

/-- The first field that a section does not have is named. -/
theorem refuses_assign (h : Owner.knowsAll (.oneSection s) fields = false) :
    Owner.Refuses (.oneSection s) fields ((s.assign values fields).mapError .settings) := by
  induction fields generalizing values with
  | nil => cases h
  | cons x fields ih =>
      obtain ⟨key, value⟩ := x
      cases hsetting : s.setting? key with
      | none =>
          refine ⟨key, by simp, ?_, ?_⟩
          · rw [Owner.knows, hsetting, Option.isSome_none]
          · rw [assign, hsetting]
            rfl
      | some setting =>
          have hrest := Owner.knowsAll_of_cons h (by rw [Owner.knows, hsetting, Option.isSome_some])
          obtain ⟨name, hname, hunknown, hassign⟩ := @ih (values.set setting value) hrest
          refine ⟨name, by simp [hname], hunknown, ?_⟩
          rw [assign, hsetting]
          exact hassign

theorem replace_of_knowsAll (hkeys : (fields.map Prod.fst).Nodup) (h : Owner.knowsAll (.oneSection s) fields = true) :
    s.replace values fields = s.check (s.assigned values fields) := by
  rw [replace, assign_of_knowsAll hkeys h]

theorem refuses_replace (h : Owner.knowsAll (.oneSection s) fields = false) :
    Owner.Refuses (.oneSection s) fields ((s.replace values fields).mapError .settings) := by
  obtain ⟨name, hname, hunknown, hassign⟩ := @refuses_assign s fields values h
  refine ⟨name, hname, hunknown, ?_⟩
  rw [replace]
  cases hvalues : s.assign values fields with
  | error fault => rwa [hvalues] at hassign
  | ok assigned =>
      rw [hvalues] at hassign
      cases hassign

theorem knowsAll_of_replace {checked : Values} (h : s.replace values fields = .ok checked) :
    Owner.knowsAll (.oneSection s) fields = true :=
  Owner.knowsAll_of_ok refuses_replace (congrArg (Except.mapError ProfileFault.settings) h)

theorem assigned_perm (hperm : fields.Perm fields') (hkeys : (fields.map Prod.fst).Nodup) :
    s.assigned values fields = s.assigned values fields' := by
  funext setting
  rw [assigned, assigned, Members.find?_perm hperm hkeys]

end Section

namespace Profile

variable {p : Profile} {fields : Members Json} {level : Json}

/-- The profile with the level and the name that were given. -/
def assignedTop (p : Profile) (level : Json) (fields : Members Json) : Except ProfileFault Profile :=
  (Level.ofJson? ((fields.find? "logging_level").getD level)).elim (.error .level) fun level =>
    .ok { p with level, name := (fields.find? "name").getD p.name }

theorem assignTop_of_knowsAll (hkeys : (fields.map Prod.fst).Nodup) (h : Owner.knowsAll .profile fields = true) :
    p.assignTop level fields = p.assignedTop level fields := by
  induction fields generalizing p level with
  | nil =>
      rw [assignTop, assignedTop]
      show _ = (Level.ofJson? level).elim _ _
      cases Level.ofJson? level with
      | none => rfl
      | some level => rfl
  | cons x fields ih =>
      obtain ⟨key, value⟩ := x
      rw [List.map_cons, List.nodup_cons] at hkeys
      rw [Owner.knowsAll, List.all_cons, Bool.and_eq_true] at h
      have hnone := Members.find?_eq_none_iff.2 hkeys.1
      rw [assignTop, assignedTop, Members.find?_cons, Members.find?_cons]
      by_cases hlevel : key = "logging_level"
      · subst hlevel
        rw [if_pos rfl, ih hkeys.2 h.2, assignedTop, hnone, if_pos rfl, if_neg (by decide)]
        rfl
      · have hname : key = "name" := by simpa [Owner.knows, hlevel] using h.1
        subst hname
        rw [if_neg hlevel, if_pos rfl, ih hkeys.2 h.2, assignedTop, hnone, if_neg (by decide), if_pos rfl]
        rfl

theorem refuses_assignTop (h : Owner.knowsAll .profile fields = false) :
    Owner.Refuses .profile fields (p.assignTop level fields) := by
  induction fields generalizing p level with
  | nil => cases h
  | cons x fields ih =>
      obtain ⟨key, value⟩ := x
      rw [assignTop]
      by_cases hlevel : key = "logging_level"
      · have hrest := Owner.knowsAll_of_cons h (by simp [Owner.knows, hlevel])
        obtain ⟨name, hname, hrefused⟩ := @ih p value hrest
        rw [if_pos hlevel]
        exact ⟨name, by simp [hname], hrefused⟩
      · by_cases hkey : key = "name"
        · have hrest := Owner.knowsAll_of_cons h (by simp [Owner.knows, hkey])
          obtain ⟨name, hname, hrefused⟩ := @ih { p with name := value } level hrest
          rw [if_neg hlevel, if_pos hkey]
          exact ⟨name, by simp [hname], hrefused⟩
        · rw [if_neg hlevel, if_neg hkey]
          exact ⟨key, by simp, by simp [Owner.knows, hlevel, hkey], rfl⟩

/-! ### The fields of all owners -/

/-- A profile with the values of fields replaced, owner by owner. -/
def assignAll (p : Profile) (fields : FieldsByOwner) : Except ProfileFault Profile := do
  let printer ← (Section.printer.replace p.printer (fields (.oneSection .printer))).mapError .settings
  let layout ← (Section.layout.replace p.layout (fields (.oneSection .layout))).mapError .settings
  assignTop { p with printer, layout } (.str p.level.key) (fields .profile)

variable {p : Profile} {fields fields' : FieldsByOwner}

section Order

variable (hperm : ∀ owner, (fields owner).Perm (fields' owner)) (hkeys : ∀ owner, ((fields owner).map Prod.fst).Nodup)
include hperm hkeys

theorem agree_replace (s : Section) (values : Values) :
    Owner.Agree fields fields' ((s.replace values (fields (.oneSection s))).mapError .settings)
      ((s.replace values (fields' (.oneSection s))).mapError .settings) := by
  apply Owner.Agree.of_perm (hperm (.oneSection s)) Section.refuses_replace Section.refuses_replace
  intro hknows hknows'
  have hkeys' := ((hperm (.oneSection s)).map Prod.fst).nodup (hkeys _)
  rw [Section.replace_of_knowsAll (hkeys _) hknows, Section.replace_of_knowsAll hkeys' hknows',
    Section.assigned_perm (hperm _) (hkeys _)]

theorem agree_assignTop (p : Profile) (level : Json) :
    Owner.Agree fields fields' (p.assignTop level (fields .profile)) (p.assignTop level (fields' .profile)) := by
  apply Owner.Agree.of_perm (hperm .profile) refuses_assignTop refuses_assignTop
  intro hknows hknows'
  have hkeys' := ((hperm .profile).map Prod.fst).nodup (hkeys _)
  rw [assignTop_of_knowsAll (hkeys _) hknows, assignTop_of_knowsAll hkeys' hknows', assignedTop, assignedTop,
    Members.find?_perm (hperm _) (hkeys _), Members.find?_perm (hperm _) (hkeys _)]

theorem agree_assignAll (p : Profile) : Owner.Agree fields fields' (p.assignAll fields) (p.assignAll fields') := by
  apply (agree_replace hperm hkeys .printer p.printer).bind
  intro printer
  apply (agree_replace hperm hkeys .layout p.layout).bind
  intro layout
  exact agree_assignTop hperm hkeys _ _

end Order

/-- The value of a field. -/
def value? (p : Profile) : Owner → String → Option Json
  | .oneSection s, name => (s.setting? name).map (p.get s)
  | .profile, name =>
      if name = "logging_level" then some (.str p.level.key) else if name = "name" then some p.name else none

/-- A profile that comes out of another by giving values to fields of one owner: each of them has its value, and every
other field of the owner keeps the one it had. -/
structure Takes (p q : Profile) (owner : Owner) (fields : List (String × Json)) : Prop where
  given : ∀ x ∈ fields, q.value? owner x.1 = some (owner.kept x.1 x.2)
  others : ∀ name, name ∉ fields.map Prod.fst → q.value? owner name = p.value? owner name

/-- An owner has a value for the fields that it knows. -/
theorem isSome_value? (p : Profile) (owner : Owner) (name : String) :
    (p.value? owner name).isSome = owner.knows name := by
  cases owner with
  | oneSection s => rw [value?, Owner.knows, Option.isSome_map]
  | profile =>
      rw [value?, Owner.knows]
      by_cases hlevel : name = "logging_level"
      · simp [hlevel]
      · by_cases hname : name = "name"
        · simp [hname]
        · simp [hlevel, hname]

section Values

variable {q : Profile} {given : Members Json} (hkeys : (given.map Prod.fst).Nodup)
include hkeys

theorem Takes.of_value? {owner : Owner} (hknows : owner.knowsAll given = true)
    (hvalue : ∀ name, q.value? owner name =
      (p.value? owner name).map fun old => ((given.find? name).map (owner.kept name)).getD old) :
    p.Takes q owner given := by
  constructor
  · rintro ⟨name, value⟩ hx
    have hsome := List.all_eq_true.1 hknows _ hx
    rw [← p.isSome_value?] at hsome
    obtain ⟨old, hold⟩ := Option.isSome_iff_exists.1 hsome
    rw [hvalue, hold, (Members.find?_eq_some_iff hkeys).2 hx]
    rfl
  · intro name hnot
    rw [hvalue, Members.find?_eq_none_iff.2 hnot]
    exact Option.map_id'

theorem takes_section {s : Section} (hp : s.check (p.get s) = .ok (p.get s))
    (h : s.replace (p.get s) given = .ok (q.get s)) : p.Takes q (.oneSection s) given := by
  have hknows := Section.knowsAll_of_replace h
  rw [Section.replace_of_knowsAll hkeys hknows] at h
  apply Takes.of_value? hkeys hknows
  intro name
  rw [value?, value?]
  cases hname : s.setting? name with
  | none => rfl
  | some setting =>
      obtain ⟨hsetting, rfl⟩ := Section.of_setting? hname
      rw [Option.map_some, Option.map_some, Option.map_some, Section.kept_of_check h hsetting, Section.assigned,
        if_pos hsetting]
      cases given.find? setting.key with
      | none => exact congrArg some (Section.kept_of_check hp hsetting).symm
      | some value =>
          rw [Option.map_some, Owner.kept, hname]
          rfl

theorem takes_top (h : p.assignTop (.str p.level.key) given = .ok q) :
    q.printer = p.printer ∧ q.layout = p.layout ∧ p.Takes q .profile given := by
  have hknows := Owner.knowsAll_of_ok refuses_assignTop h
  have hkept : ∀ name, (given.find? name).map (Owner.kept .profile name) = given.find? name := fun _ => Option.map_id'
  rw [assignTop_of_knowsAll hkeys hknows, assignedTop] at h
  cases hlevel : Level.ofJson? ((given.find? "logging_level").getD (.str p.level.key)) with
  | none =>
      rw [hlevel] at h
      cases h
  | some level =>
      rw [hlevel] at h
      cases h
      refine ⟨rfl, rfl, .of_value? hkeys hknows fun name => ?_⟩
      rw [hkept, value?, value?]
      by_cases hname : name = "logging_level"
      · rw [if_pos hname, if_pos hname, Option.map_some, hname, Level.eq_of_ofJson? hlevel]
      · by_cases hname' : name = "name"
        · rw [if_neg hname, if_neg hname, if_pos hname', if_pos hname', Option.map_some, hname']
        · rw [if_neg hname, if_neg hname, if_neg hname', if_neg hname', Option.map_none]

end Values

/-- What is given to the fields of all owners is what they have afterwards. -/
theorem takes_of_assignAll {q : Profile} (hp : p.Checked) (hkeys : ∀ owner, ((fields owner).map Prod.fst).Nodup)
    (h : p.assignAll fields = .ok q) (owner : Owner) : p.Takes q owner (fields owner) := by
  obtain ⟨printer, hprinter, h⟩ := exists_of_bind_eq_ok h
  obtain ⟨layout, hlayout, h⟩ := exists_of_bind_eq_ok h
  obtain ⟨hprinter', hlayout', htop⟩ := takes_top (hkeys .profile) h
  cases owner with
  | profile => exact ⟨htop.given, htop.others⟩
  | oneSection s =>
      cases s with
      | printer =>
          apply takes_section (hkeys _) (hp.check .printer)
          exact (eq_ok_of_mapError hprinter).trans (congrArg _ hprinter'.symm)
      | layout =>
          apply takes_section (hkeys _) (hp.check .layout)
          exact (eq_ok_of_mapError hlayout).trans (congrArg _ hlayout'.symm)

/-- Values that a profile can be given: its owners have the fields, the sections pass their checks with them, and the
level is one. -/
structure Accepts (p : Profile) (fields : FieldsByOwner) : Prop where
  known : ∀ owner : Owner, owner.knowsAll (fields owner) = true
  checked : ∀ s : Section, ∃ checked, s.check (s.assigned (p.get s) (fields (.oneSection s))) = .ok checked
  level : ∃ level,
    Level.ofJson? ((Members.find? (fields .profile) "logging_level").getD (.str p.level.key)) = some level

theorem exists_assignAll_iff (hkeys : ∀ owner, ((fields owner).map Prod.fst).Nodup) :
    (∃ q, p.assignAll fields = .ok q) ↔ p.Accepts fields := by
  constructor
  · rintro ⟨q, h⟩
    obtain ⟨printer, hprinter, h⟩ := exists_of_bind_eq_ok h
    obtain ⟨layout, hlayout, h⟩ := exists_of_bind_eq_ok h
    have hknows : ∀ owner : Owner, owner.knowsAll (fields owner) = true := by
      intro owner
      cases owner with
      | profile => exact Owner.knowsAll_of_ok refuses_assignTop h
      | oneSection s =>
          cases s with
          | printer => exact Owner.knowsAll_of_ok Section.refuses_replace hprinter
          | layout => exact Owner.knowsAll_of_ok Section.refuses_replace hlayout
    refine ⟨hknows, fun s => ?_, ?_⟩
    · rw [← Section.replace_of_knowsAll (hkeys _) (hknows _)]
      cases s with
      | printer => exact ⟨printer, eq_ok_of_mapError hprinter⟩
      | layout => exact ⟨layout, eq_ok_of_mapError hlayout⟩
    · rw [assignTop_of_knowsAll (hkeys _) (hknows _), assignedTop] at h
      cases hlevel : Level.ofJson? ((Members.find? (fields .profile) "logging_level").getD (.str p.level.key)) with
      | none =>
          rw [hlevel] at h
          cases h
      | some level => exact ⟨level, rfl⟩
  · rintro ⟨hknows, hchecked, level, hlevel⟩
    obtain ⟨printer, hprinter⟩ := hchecked .printer
    obtain ⟨layout, hlayout⟩ := hchecked .layout
    rw [← Section.replace_of_knowsAll (hkeys _) (hknows _)] at hprinter hlayout
    simp only [get] at hprinter hlayout
    have htop := @assignTop_of_knowsAll { p with printer, layout } _ (.str p.level.key) (hkeys .profile) (hknows _)
    rw [assignedTop, hlevel] at htop
    rw [assignAll, hprinter, hlayout]
    exact ⟨_, htop⟩

end Profile

/-! ### Overrides -/

/-- One override: a value for a field of an owner, or an object of values for a section. -/
inductive Override where
  | field (owner : Owner) (name : String) (value : Json)
  | block (s : Section) (fields : List (String × Json))

namespace Override

/-- The override under its key. -/
def pair : Override → String × Json
  | .field (.oneSection s) name value => (s.key ++ "__" ++ name, value)
  | .field .profile name value => (name, value)
  | .block s fields => (s.key, .obj fields)

def owner : Override → Owner
  | .field owner _ _ => owner
  | .block s _ => .oneSection s

/-- The fields that an override gives values to. -/
def fields : Override → List (String × Json)
  | .field _ name value => [(name, value)]
  | .block _ fields => fields

/-- Whether an override is the object for an owner. -/
def blocks (owner : Owner) : Override → Bool
  | .field .. => false
  | .block s _ => Owner.oneSection s = owner

/-- The fields of an owner that some overrides give values to. -/
def fieldsOf (owner : Owner) (os : List Override) : List (String × Json) :=
  (os.filter fun o => o.owner = owner).flatMap fields

/-- The overrides that are not lost to an object which is given for their section later. -/
def survivors : List Override → List Override
  | [] => []
  | o :: os => if os.any (blocks o.owner) then survivors os else o :: survivors os

/-- The fields that the overrides which survive give values to. -/
def lasting (os : List Override) : FieldsByOwner := fun owner => fieldsOf owner (survivors os)

/-- Overrides that address different fields under different keys. What is given to the profile itself has a plain name,
which is that of no section. -/
structure Apart (os : List Override) : Prop where
  keys : (os.map fun o => o.pair.1).Nodup
  fields : ∀ owner, ((fieldsOf owner os).map Prod.fst).Nodup
  plain : ∀ name value, .field .profile name value ∈ os →
    Profile.splitKey? name.toList = none ∧ Section.ofKey? name = none

/-- What is given to each owner after one more override. -/
def merge (given : FieldsByOwner) (o : Override) : FieldsByOwner := fun owner =>
  if o.blocks owner then o.fields else given owner ++ fieldsOf owner [o]

variable {o : Override} {os : List Override} {given : FieldsByOwner} {owner : Owner}

theorem fieldsOf_singleton (owner : Owner) (o : Override) :
    fieldsOf owner [o] = if o.owner = owner then o.fields else [] := by
  by_cases h : o.owner = owner
  · simp [fieldsOf, h]
  · simp [fieldsOf, h]

theorem fieldsOf_cons (owner : Owner) (o : Override) (os : List Override) :
    fieldsOf owner (o :: os) = fieldsOf owner [o] ++ fieldsOf owner os := by
  rw [fieldsOf, fieldsOf, fieldsOf, ← List.flatMap_append, ← List.filter_append, List.singleton_append]

theorem fieldsOf_perm {os' : List Override} (h : os.Perm os') (owner : Owner) :
    (fieldsOf owner os).Perm (fieldsOf owner os') :=
  (h.filter _).flatMap_right fields

theorem fieldsOf_survivors_sublist (owner : Owner) (os : List Override) :
    (fieldsOf owner (survivors os)).Sublist (fieldsOf owner os) := by
  induction os with
  | nil => exact .refl _
  | cons o os ih =>
      rw [survivors, fieldsOf_cons owner o os]
      split
      · exact ih.trans (List.sublist_append_right ..)
      · rw [fieldsOf_cons owner o (survivors os)]
        exact ih.append_left _

namespace Apart

theorem of_perm {os' : List Override} (hos : Apart os) (h : os'.Perm os) : Apart os' where
  keys := (h.map _).symm.nodup hos.keys
  fields := fun owner => ((fieldsOf_perm h owner).map Prod.fst).symm.nodup (hos.fields owner)
  plain := fun name value hmem => hos.plain name value (h.mem_iff.1 hmem)

theorem lasting (hos : Apart os) (owner : Owner) : ((lasting os owner).map Prod.fst).Nodup :=
  ((fieldsOf_survivors_sublist owner os).map Prod.fst).nodup (hos.fields owner)

theorem pairs (hos : Apart os) : ((os.map pair).map Prod.fst).Nodup := by
  rw [List.map_map]
  exact hos.keys

end Apart

theorem owner_of_blocks (h : o.blocks owner = true) : o.owner = owner := by
  cases o with
  | field => cases h
  | block s fields => exact of_decide_eq_true h

theorem merge_block (given : FieldsByOwner) (s : Section) (fields : List (String × Json)) :
    merge given (.block s fields) (.oneSection s) = fields := by
  simp [merge, blocks, Override.fields]

theorem merge_field (given : FieldsByOwner) (owner : Owner) (name : String) (value : Json) :
    merge given (.field owner name value) owner = given owner ++ [(name, value)] := by
  simp [merge, blocks, fieldsOf_singleton, Override.owner, Override.fields]

theorem merge_of_ne (given : FieldsByOwner) {o : Override} (h : owner ≠ o.owner) :
    merge given o owner = given owner := by
  have hblocks : o.blocks owner = false := Bool.eq_false_iff.2 fun hblocks => h (owner_of_blocks hblocks).symm
  simp [merge, hblocks, fieldsOf_singleton, Ne.symm h]

/-- What is given does not grow but by the fields of the overrides. -/
theorem sublist_merge (given : FieldsByOwner) (o : Override) (os : List Override) (owner : Owner) :
    (merge given o owner ++ fieldsOf owner os).Sublist (given owner ++ fieldsOf owner (o :: os)) := by
  rw [fieldsOf_cons, merge, ← List.append_assoc]
  apply List.Sublist.append_right
  split
  · next hblocks =>
      rw [fieldsOf_singleton, if_pos (owner_of_blocks hblocks)]
      exact List.sublist_append_right ..
  · exact .refl _

/-- What is given by overrides in turn is what is given by those that survive. -/
theorem foldl_merge (os : List Override) (given : FieldsByOwner) (owner : Owner) :
    os.foldl merge given owner = (if os.any (blocks owner) then [] else given owner) ++ lasting os owner := by
  induction os generalizing given with
  | nil => exact (List.append_nil _).symm
  | cons o os ih =>
      rw [List.foldl_cons, ih, List.any_cons, lasting, lasting, survivors, merge]
      by_cases howner : o.owner = owner
      · rw [howner]
        cases hany : os.any (blocks owner) with
        -- the object that is still to come makes all that was given up to now disappear, and `o` with it
        | true => simp
        | false =>
            have hcons : fieldsOf owner (o :: survivors os) = o.fields ++ fieldsOf owner (survivors os) := by
              rw [fieldsOf_cons, fieldsOf_singleton, if_pos howner]
            rw [fieldsOf_singleton, if_pos howner]
            cases hblocks : o.blocks owner with
            | true => simp [hcons]
            | false => simp [hcons]
      · have hblocks : o.blocks owner = false := Bool.eq_false_iff.2 fun h => howner (owner_of_blocks h)
        have hself : fieldsOf owner [o] = [] := by rw [fieldsOf_singleton, if_neg howner]
        have hcons : fieldsOf owner (if os.any (blocks o.owner) then survivors os else o :: survivors os) =
            fieldsOf owner (survivors os) := by
          split
          · rfl
          · rw [fieldsOf_cons, hself, List.nil_append]
        rw [hcons, hblocks, hself]
        simp

end Override

/-! ### Gathering -/

namespace Profile

/-- Members that hold what is given to each owner. -/
structure Gathered (members : Members Json) (given : FieldsByOwner) : Prop where
  inSection : ∀ s : Section, members.find? s.key = none ∧ given (.oneSection s) = [] ∨
    members.find? s.key = some (.obj (given (.oneSection s)))
  top : topFields members = given .profile

theorem splitKey?_join (s : Section) (name : String) :
    splitKey? (s.key ++ "__" ++ name).toList = some (s.key.toList, name.toList) := by
  rw [String.toList_append, String.toList_append]
  cases s <;> simp [Section.key, splitKey?]

theorem splitKey?_key (s : Section) : splitKey? s.key.toList = none := by
  cases s <;> rfl

theorem ofKey?_key (s : Section) : Section.ofKey? s.key = some s := by
  cases s <;> rfl

variable {members : Members Json} {given : FieldsByOwner}

theorem topFields_insert_section (s : Section) (value : Json) :
    topFields (members.insert s.key value) = topFields members := by
  have hkey : (Section.ofKey? s.key).isNone = false := by rw [ofKey?_key, Option.isNone_some]
  induction members with
  | nil => simp [Members.insert, topFields, hkey]
  | cons x members ih =>
      rw [topFields] at ih ⊢
      rw [Members.insert]
      split
      · next heq => simp [topFields, heq, hkey]
      · rw [List.filter_cons, ih, topFields, topFields, List.filter_cons]

/-- An object for a section takes the place of what was given to it. -/
theorem Gathered.insert_section (h : Gathered members given) {s : Section} {fields : List (String × Json)}
    {given' : FieldsByOwner} (hsection : given' (.oneSection s) = fields)
    (hothers : ∀ owner, owner ≠ .oneSection s → given' owner = given owner) :
    Gathered (members.insert s.key (.obj fields)) given' := by
  constructor
  · intro other
    rw [Members.find?_insert]
    by_cases hother : other = s
    · rw [hother, if_pos rfl, hsection]
      exact .inr rfl
    · have hkey : other.key ≠ s.key := by
        intro heq
        have hsame := ofKey?_key other
        rw [heq, ofKey?_key] at hsame
        exact hother (Option.some.inj hsame).symm
      have howner : Owner.oneSection other ≠ .oneSection s := fun heq => hother (Owner.oneSection.inj heq)
      rw [if_neg hkey, hothers _ howner]
      exact h.inSection other
  · rw [topFields_insert_section, h.top, hothers _ (by simp)]

/-- A field of the profile itself comes behind those that were given. -/
theorem Gathered.insert_top (h : Gathered members given) {name : String} (hplain : Section.ofKey? name = none)
    (hnot : name ∉ (given .profile).map Prod.fst) {value : Json} {given' : FieldsByOwner}
    (htop : given' .profile = given .profile ++ [(name, value)])
    (hothers : ∀ owner, owner ≠ .profile → given' owner = given owner) :
    Gathered (members.insert name value) given' := by
  have hnew : name ∉ members.map Prod.fst := by
    intro hmem
    obtain ⟨x, hx, rfl⟩ := List.mem_map.1 hmem
    rw [← h.top] at hnot
    exact hnot (List.mem_map.2 ⟨x, List.mem_filter.2 ⟨hx, by simp [hplain]⟩, rfl⟩)
  constructor
  · intro s
    have hkey : s.key ≠ name := by
      intro heq
      rw [← heq, ofKey?_key] at hplain
      cases hplain
    rw [Members.find?_insert, if_neg hkey, hothers _ (by simp)]
    exact h.inSection s
  · have htopFields : topFields [(name, value)] = [(name, value)] := by simp [topFields, hplain]
    rw [Members.insert_of_notMem hnew, topFields, List.filter_append, ← topFields, ← topFields, htopFields, h.top, htop]

/-- One override is gathered. -/
theorem exists_gather_cons {o : Override} {os : List Override} (h : Gathered members given)
    (hkeys : ((given o.owner ++ Override.fieldsOf o.owner (o :: os)).map Prod.fst).Nodup)
    (hplain : ∀ name value, o = .field .profile name value → splitKey? name.toList = none ∧ Section.ofKey? name = none)
    (rest : List (String × Json)) :
    ∃ members', gather members (o.pair :: rest) = gather members' rest ∧
      Gathered members' (Override.merge given o) := by
  cases o with
  | block s fields =>
      refine ⟨members.insert s.key (.obj fields), ?_, ?_⟩
      · rw [Override.pair, gather, splitKey?_key]
      · exact h.insert_section (Override.merge_block ..) fun owner howner => Override.merge_of_ne given howner
  | field owner name value =>
      have hnot : name ∉ (given owner).map Prod.fst := by
        rw [Override.fieldsOf_cons, Override.fieldsOf_singleton, if_pos rfl, List.map_append, List.map_append] at hkeys
        exact fun hmem => (List.nodup_append.1 hkeys).2.2 _ hmem name (List.mem_append_left _ List.mem_cons_self) rfl
      cases owner with
      | profile =>
          obtain ⟨hsplit, hsection⟩ := hplain name value rfl
          refine ⟨members.insert name value, ?_, ?_⟩
          · rw [Override.pair, gather, hsplit]
          · exact h.insert_top hsection hnot (Override.merge_field ..) fun owner howner =>
              Override.merge_of_ne given howner
      | oneSection s =>
          refine ⟨members.insert s.key (.obj (given (.oneSection s) ++ [(name, value)])), ?_, ?_⟩
          · have hkey : (Section.ofKey? s.key).isNone = false := by rw [ofKey?_key, Option.isNone_some]
            rw [Override.pair, gather, splitKey?_join]
            simp only [String.ofList_toList, hkey]
            -- an object is begun for the section, or the one that is there grows by a field it does not have yet
            rcases h.inSection s with ⟨hnone, hnil⟩ | hsome
            · simp [hnone, hnil]
            · simp [hsome, Members.insert_of_notMem hnot]
          · exact h.insert_section (Override.merge_field ..) fun owner howner => Override.merge_of_ne given howner

/-- All overrides are gathered, and what they give is what those that survive give. -/
theorem exists_gather {os : List Override} (h : Gathered members given)
    (hkeys : ∀ owner, ((given owner ++ Override.fieldsOf owner os).map Prod.fst).Nodup)
    (hplain : ∀ name value, .field .profile name value ∈ os →
      splitKey? name.toList = none ∧ Section.ofKey? name = none) :
    ∃ members', gather members (os.map Override.pair) = .ok members' ∧
      Gathered members' (os.foldl Override.merge given) := by
  induction os generalizing members given with
  | nil => exact ⟨members, rfl, h⟩
  | cons o os ih =>
      obtain ⟨members', hgather, hgathered⟩ := exists_gather_cons h (hkeys o.owner)
        (fun name value ho => hplain name value (ho ▸ List.mem_cons_self)) (os.map Override.pair)
      obtain ⟨members'', hgather', hgathered'⟩ := ih hgathered
        (fun owner => ((Override.sublist_merge given o os owner).map Prod.fst).nodup (hkeys owner))
        (fun name value ho => hplain name value (List.mem_cons_of_mem o ho))
      exact ⟨members'', hgather.trans hgather', hgathered'⟩

/-- A section for which nothing was given is left as it is, which is what replacing nothing does to it. -/
theorem overrideSection_eq {p : Profile} {s : Section} (hp : s.check (p.get s) = .ok (p.get s))
    (h : Gathered members given) :
    p.overrideSection members s = ((s.replace (p.get s) (given (.oneSection s))).mapError .settings).map (p.set s) := by
  rw [overrideSection]
  rcases h.inSection s with ⟨hnone, hnil⟩ | hsome
  · have hself : p.set s (p.get s) = p := by cases s <;> rfl
    have hreplace : s.replace (p.get s) [] = .ok (p.get s) := hp
    rw [hnone, hnil, hreplace]
    exact congrArg Except.ok hself.symm
  · rw [hsome]
    cases hreplace : s.replace (p.get s) (given (.oneSection s)) with
    | error fault =>
        simp only [hreplace]
        rfl
    | ok values =>
        simp only [hreplace]
        rfl

variable {p : Profile} {os os' : List Override}

/-- Overrides give their values to the fields of all owners, if they survive. -/
theorem override_eq (hp : p.Checked) (hos : Override.Apart os)
    (hself : Members.find? (os.map Override.pair) SettingFault.reservedKey = none) :
    p.override (os.map Override.pair) = p.assignAll (Override.lasting os) := by
  have hempty : Gathered [] fun _ => [] := ⟨fun s => .inl ⟨rfl, rfl⟩, rfl⟩
  obtain ⟨members, hgather, hgathered⟩ := exists_gather hempty hos.fields hos.plain
  have hgiven : os.foldl Override.merge (fun _ => []) = Override.lasting os := by
    funext owner
    rw [Override.foldl_merge, ite_self, List.nil_append]
  rw [hgiven] at hgathered
  have hoverride : p.override (os.map Override.pair) = (p.overrideSection members .printer >>= fun p =>
      p.overrideSection members .layout >>= fun p => p.assignTop (.str p.level.key) (topFields members)) := by
    simp only [override, Members.ofList_eq_self hos.pairs, hself, Option.isSome_none, hgather]
    rfl
  have hprinter : p.overrideSection members .printer =
      ((Section.printer.replace p.printer (Override.lasting os (.oneSection .printer))).mapError
        .settings).map fun printer => { p with printer } :=
    overrideSection_eq (hp.check .printer) hgathered
  have hlayout : ∀ printer, overrideSection { p with printer } members .layout =
      ((Section.layout.replace p.layout (Override.lasting os (.oneSection .layout))).mapError
        .settings).map fun layout => { p with printer, layout } :=
    fun printer => @overrideSection_eq _ _ { p with printer } .layout (hp.check .layout) hgathered
  rw [hoverride, hprinter, hgathered.top, assignAll]
  cases Section.printer.replace p.printer (Override.lasting os (.oneSection .printer)) with
  | error fault => rfl
  | ok printer =>
      show (overrideSection { p with printer } members .layout >>= _) = _
      rw [hlayout printer]
      cases Section.layout.replace p.layout (Override.lasting os (.oneSection .layout)) with
      | error fault => rfl
      | ok layout => rfl

/-- No value can be given under the reserved key. -/
theorem override_reserved (hos : Override.Apart os)
    (hself : (Members.find? (os.map Override.pair) SettingFault.reservedKey).isSome = true) :
    p.override (os.map Override.pair) = .error .unassignable := by
  simp only [override, Members.ofList_eq_self hos.pairs, hself]
  rfl

/-- The outcome of overrides does not depend on their order as long as the same ones survive, but for the field
that is named if an owner does not have all of those given to it. It is a profile exactly if the profile accepts what
the overrides that survive give, and none is under the reserved key; then every field that they give a value has it, and
every other field keeps the one it had. -/
theorem override_perm (hp : p.Checked) (hos : Override.Apart os) (hperm : os'.Perm os)
    (hsurvivors : (Override.survivors os').Perm (Override.survivors os)) :
    Owner.Agree (Override.lasting os) (Override.lasting os') (p.override (os.map Override.pair))
        (p.override (os'.map Override.pair)) ∧
      ((∃ q, p.override (os.map Override.pair) = .ok q) ↔
        SettingFault.reservedKey ∉ (os.map Override.pair).map Prod.fst ∧ p.Accepts (Override.lasting os)) ∧
      ∀ q, p.override (os.map Override.pair) = .ok q → ∀ owner,
        (∀ x ∈ Override.lasting os owner, q.value? owner x.1 = some (owner.kept x.1 x.2)) ∧
        ∀ name, name ∉ (Override.lasting os owner).map Prod.fst → q.value? owner name = p.value? owner name := by
  have hos' := hos.of_perm hperm
  have hfind : Members.find? (os.map Override.pair) SettingFault.reservedKey =
      Members.find? (os'.map Override.pair) SettingFault.reservedKey :=
    Members.find?_perm (hperm.symm.map _) hos.pairs _
  rw [← Members.find?_eq_none_iff]
  cases hself : Members.find? (os.map Override.pair) SettingFault.reservedKey with
  | some value =>
      have hreserved := @override_reserved p os hos (by rw [hself, Option.isSome_some])
      have hreserved' := @override_reserved p os' hos' (by rw [← hfind, hself, Option.isSome_some])
      rw [hreserved, hreserved']
      exact ⟨.inl rfl, by simp, by rintro q ⟨⟩⟩
  | none =>
      rw [override_eq hp hos hself, override_eq hp hos' (hfind ▸ hself)]
      refine ⟨agree_assignAll (fun owner => Override.fieldsOf_perm hsurvivors.symm owner) hos.lasting p, ?_, ?_⟩
      · rw [exists_assignAll_iff hos.lasting, and_iff_right rfl]
      · intro q hq owner
        obtain ⟨hgiven, hothers⟩ := takes_of_assignAll hp hos.lasting hq owner
        exact ⟨hgiven, hothers⟩

/-- An object for the printer section, a setting of it behind the object, and a name. -/
def nestedOverrides : List Override :=
  [.block .printer [("bracket_same_line", .bool true), ("whitespace_sensitivity", .str "ignorable")],
    .field (.oneSection .printer) "sort_attributes" (.bool true), .field .profile "name" (.str "mine")]

/-- With the name in front, the same profile comes out. It has the values that were given, one of them under its first
name, and the default elsewhere. -/
theorem override_perm_nested :
    ∃ q, override {} (nestedOverrides.map Override.pair) = .ok q ∧
      override {} ((nestedOverrides.drop 2 ++ nestedOverrides.take 2).map Override.pair) = .ok q ∧
      q.value? (.oneSection .printer) "sort_attributes" = some (.bool true) ∧
      q.value? (.oneSection .printer) "whitespace_sensitivity" = some (.str "ignore") ∧
      q.value? (.oneSection .printer) "quote_attributes" = some (.str "preserve") := by
  have hchecked : Checked {} := by
    intro s
    refine ⟨Setting.default, ?_⟩
    cases s with
    | printer => exact checkPrinter_iff.2 ⟨rfl, rfl, rfl, rfl, rfl, fun _ _ _ => rfl⟩
    | layout => exact checkLayout_iff.2 ⟨rfl, rfl, rfl, fun _ _ => rfl⟩
  have hapart : Override.Apart nestedOverrides := by
    refine ⟨by decide, fun owner => ?_, fun name value hmem => ?_⟩
    · cases owner with
      | profile => decide
      | oneSection s => cases s <;> decide
    · rcases List.mem_cons.1 hmem with heq | hmem
      · cases heq
      · rcases List.mem_cons.1 hmem with heq | hmem
        · cases heq
        · cases List.mem_singleton.1 hmem
          decide
  have hperm := List.perm_append_comm.trans (.of_eq (List.take_append_drop 2 nestedOverrides))
  have hsurvivors := @List.perm_append_comm _ (nestedOverrides.drop 2) (nestedOverrides.take 2)
  obtain ⟨hagree, -, hvalues⟩ := override_perm hchecked hapart hperm hsurvivors
  obtain ⟨q, hq⟩ : ∃ q, override {} (nestedOverrides.map Override.pair) = .ok q := ⟨_, rfl⟩
  obtain ⟨hgiven, hothers⟩ := hvalues q hq (.oneSection .printer)
  have hfields : Override.lasting nestedOverrides (.oneSection .printer) =
      [("bracket_same_line", .bool true), ("whitespace_sensitivity", .str "ignorable"),
        ("sort_attributes", .bool true)] := rfl
  rw [hfields] at hgiven hothers
  refine ⟨q, hq, ?_, ?_, ?_, ?_⟩
  · rcases hagree with heq | ⟨owner, ⟨name, -, -, hrefused⟩, -⟩
    · exact heq.symm.trans hq
    · rw [hq] at hrefused
      cases hrefused
  · exact hgiven ("sort_attributes", .bool true) (by simp)
  · exact hgiven ("whitespace_sensitivity", .str "ignorable") (by simp)
  · exact hothers "quote_attributes" (by simp)

/-- A setting of the printer section by itself, and an object with another one. -/
def mixedOverrides : List Override :=
  [.field (.oneSection .printer) "sort_attributes" (.bool true), .block .printer [("bracket_same_line", .bool true)]]

/-- In this order the setting is lost, and in the other order both are kept. -/
theorem override_perm_mixed :
    ∃ q q', override {} (mixedOverrides.map Override.pair) = .ok q ∧
      override {} (mixedOverrides.reverse.map Override.pair) = .ok q' ∧
      q.value? (.oneSection .printer) "sort_attributes" = some (.bool false) ∧
      q'.value? (.oneSection .printer) "sort_attributes" = some (.bool true) :=
  ⟨_, _, rfl, rfl, rfl, rfl⟩

end Profile

end XmlTidy
