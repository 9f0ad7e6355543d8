import Mathlib.Data.List.TakeWhile
import XmlTidy.Text.Name

/-!
The lexical classes seen from both sides. What belongs to a class is said without reading; reading takes exactly
a text of the class in front of whatever cannot prolong it, and whatever reading takes belongs to the
class. Both directions are stated once for each class.
-/

namespace XmlTidy

/-- A text that does not go on with a character of a class. -/
def Stops (p : Char → Bool) (rest : Text) : Prop :=
  ∀ c ∈ rest.head?, p c = false

theorem stops_nil (p : Char → Bool) : Stops p [] := by
  intro c hc
  simp at hc

theorem stops_cons {p : Char → Bool} {c : Char} {t : Text} : Stops p (c :: t) ↔ p c = false := by
  simp [Stops]

theorem stops_append {p : Char → Bool} {s t : Text} (hs : s ≠ []) :
    Stops p (s ++ t) ↔ Stops p s := by
  cases s with
  | nil => exact absurd rfl hs
  | cons c s => simp [Stops]

theorem stops_dropWhile (p : Char → Bool) (t : Text) : Stops p (t.dropWhile p) := by
  intro c hc
  have hhead := List.head?_dropWhile_not p t
  rw [Option.mem_def] at hc
  simpa [hc] using hhead

theorem takeWhile_append_stops {p : Char → Bool} {s rest : Text} (hs : ∀ c ∈ s, p c = true)
    (hrest : Stops p rest) : (s ++ rest).takeWhile p = s := by
  rw [List.takeWhile_append_of_pos hs]
  cases rest with
  | nil => simp
  | cons c rest => simp [stops_cons.1 hrest]

theorem dropWhile_append_stops {p : Char → Bool} {s rest : Text} (hs : ∀ c ∈ s, p c = true)
    (hrest : Stops p rest) : (s ++ rest).dropWhile p = rest := by
  rw [List.dropWhile_append_of_pos hs]
  cases rest with
  | nil => simp
  | cons c rest => simp [stops_cons.1 hrest]

/-- A text of blanks only. -/
def Blanks (t : Text) : Prop :=
  ∀ c ∈ t, isBlank c = true

theorem blanks_nil : Blanks [] := by
  intro c hc
  simp at hc

theorem Blanks.append {s t : Text} (hs : Blanks s) (ht : Blanks t) : Blanks (s ++ t) := by
  intro c hc
  rcases List.mem_append.1 hc with h | h
  · exact hs c h
  · exact ht c h

theorem blanks_takeWhile (t : Text) : Blanks (t.takeWhile isBlank) :=
  fun _ hc => List.all_eq_true.1 List.all_takeWhile _ hc

/-- A text whose last character is no blank. -/
def EndsSolid (t : Text) : Prop := ∃ s x, t = s ++ [x] ∧ isBlank x = false

theorem EndsSolid.append_left {t : Text} (h : EndsSolid t) (u : Text) : EndsSolid (u ++ t) := by
  obtain ⟨s, x, rfl, hx⟩ := h
  exact ⟨u ++ s, x, by simp, hx⟩

namespace Text

/-! ### Fixed beginnings and ends -/

theorem after?_append (lead rest : Text) : after? lead (lead ++ rest) = some rest :=
  after?_eq_some_iff.2 rfl

theorem startsWith_iff {lead t : Text} : startsWith lead t = true ↔ ∃ rest, t = lead ++ rest := by
  simp only [startsWith, Option.isSome_iff_exists, after?_eq_some_iff]

theorem startsWith_append_of {lead s : Text} (rest : Text) (h : startsWith lead s = true) :
    startsWith lead (s ++ rest) = true := by
  obtain ⟨t, rfl⟩ := startsWith_iff.1 h
  exact startsWith_iff.2 ⟨t ++ rest, by simp⟩

/-- A text that goes beyond `lead` starts with it on its own. -/
theorem startsWith_of_append {lead s t : Text} (h : startsWith lead (s ++ t) = true) {x : Char}
    (hx : x ∈ s) (hnot : x ∉ lead) : startsWith lead s = true := by
  induction lead generalizing s with
  | nil => rfl
  | cons c lead ih =>
      cases s with
      | nil => simp at hx
      | cons d s =>
          simp only [List.mem_cons, not_or] at hnot
          by_cases hcd : c = d
          · have hxs : x ∈ s := by
              rcases List.mem_cons.1 hx with rfl | hxs
              · exact absurd hcd.symm hnot.1
              · exact hxs
            have hrest : startsWith lead (s ++ t) = true := by
              simpa [startsWith, after?, hcd] using h
            simpa [startsWith, after?, hcd] using ih hrest hxs hnot.2
          · simp [startsWith, after?, hcd] at h

/-- Two texts that differ at their first characters. -/
theorem startsWith_cons_ne {c d : Char} {lead t : Text} (h : c ≠ d) :
    startsWith (c :: lead) (d :: t) = false := by
  simp [startsWith, after?, h]

/-- A token that ends with `stop` and holds it nowhere before its end. -/
structure EndsAt (stop image : Text) : Prop where
  suffix : ∃ s, image = s ++ stop
  first : ∀ s u, image = s ++ (stop ++ u) → u = []

/-- The tail of a token that does not start with `stop` is such a token. -/
theorem EndsAt.tail {stop image : Text} {c : Char} (h : EndsAt stop (c :: image))
    (hstart : after? stop (c :: image) = none) : EndsAt stop image := by
  obtain ⟨s, hs⟩ := h.suffix
  cases s with
  | nil =>
      rw [List.nil_append] at hs
      rw [hs, after?_eq_some_iff.2 (List.append_nil stop).symm] at hstart
      cases hstart
  | cons d s => exact ⟨⟨s, (List.cons.inj hs).2⟩, fun u v huv => h.first (c :: u) v (congrArg _ huv)⟩

theorem EndsAt.append {stop image : Text} (hstop : stop ≠ []) (h : EndsAt stop image)
    (rest : Text) : through? stop (image ++ rest) = some (image, rest) := by
  induction image with
  | nil =>
      obtain ⟨s, hs⟩ := h.suffix
      exact absurd (List.append_eq_nil_iff.1 hs.symm).2 hstop
  | cons c image ih =>
      simp only [List.cons_append, through?]
      cases hafter : after? stop (c :: (image ++ rest)) with
      | some r =>
          -- the token is no shorter than `stop`, so all of it is `stop`
          have hlong : stop.length ≤ (c :: image).length := by
            obtain ⟨s, hs⟩ := h.suffix
            rw [hs]
            simp
          obtain ⟨u, hu⟩ := List.prefix_of_prefix_length_le ⟨r, (after?_eq_some_iff.1 hafter).symm⟩
            (List.prefix_append (c :: image) rest) hlong
          obtain rfl := h.first [] u hu.symm
          rw [List.append_nil] at hu
          subst hu
          exact congrArg (fun r => some (c :: image, r)) (List.append_cancel_left (after?_eq_some_iff.1 hafter)).symm
      | none =>
          have hstart : after? stop (c :: image) = none := by
            rw [Option.eq_none_iff_forall_not_mem]
            intro r hr
            have hmore : c :: (image ++ rest) = stop ++ (r ++ rest) := by
              rw [← List.append_assoc, ← after?_eq_some_iff.1 hr, List.cons_append]
            rw [after?_eq_some_iff.2 hmore] at hafter
            cases hafter
          simp [ih (h.tail hstart)]

theorem endsAt_of_through? {stop t image rest : Text} (hstop : stop ≠ [])
    (h : through? stop t = some (image, rest)) : EndsAt stop image := by
  induction t generalizing image with
  | nil => simp [through?, hstop] at h
  | cons c t ih =>
      simp only [through?] at h
      split at h
      · simp only [Option.some.injEq, Prod.mk.injEq] at h
        rw [← h.1]
        refine ⟨⟨[], rfl⟩, fun s u hu => ?_⟩
        have hlength := congrArg List.length hu
        simp only [List.length_append] at hlength
        exact List.length_eq_zero_iff.1 (by omega)
      · next hnone =>
          simp only [Option.map_eq_some_iff, Prod.mk.injEq] at h
          obtain ⟨⟨image', rest'⟩, hrest, rfl, rfl⟩ := h
          have hends := ih hrest
          obtain ⟨s, hs⟩ := hends.suffix
          refine ⟨⟨c :: s, by rw [hs]; rfl⟩, fun s u hu => ?_⟩
          cases s with
          | nil =>
              have hmore : c :: t = stop ++ (u ++ rest') := by
                rw [eq_append_of_through? hrest, ← List.cons_append, hu]
                simp
              rw [after?_eq_some_iff.2 hmore] at hnone
              cases hnone
          | cons d s => exact hends.first s u (List.cons.inj hu).2

end Text

/-! ### Names -/

namespace Name

/-- A text that is one name. -/
def IsName (t : Text) : Prop :=
  ∃ c s, t = c :: s ∧ isStart c = true ∧ ∀ d ∈ s, isInner d = true

/-- A name in front of a text that does not prolong it. -/
def Leads (name t : Text) : Prop :=
  IsName name ∧ ∃ rest, t = name ++ rest ∧ Stops isInner rest

theorem IsName.split?_append {name rest : Text} (h : IsName name) (hrest : Stops isInner rest) :
    split? (name ++ rest) = some (name, rest) := by
  obtain ⟨c, s, rfl, hc, hs⟩ := h
  rw [List.cons_append, split?, if_pos hc, takeWhile_append_stops hs hrest,
    dropWhile_append_stops hs hrest]

theorem isName_of_split? {t name rest : Text} (h : split? t = some (name, rest)) :
    IsName name ∧ Stops isInner rest := by
  cases t with
  | nil => simp [split?] at h
  | cons c t =>
      simp only [split?] at h
      split at h
      · next hc =>
          simp only [Option.some.injEq, Prod.mk.injEq] at h
          obtain ⟨rfl, rfl⟩ := h
          refine ⟨⟨c, _, rfl, hc, fun d hd => ?_⟩, stops_dropWhile isInner t⟩
          exact List.all_eq_true.1 List.all_takeWhile d hd
      · simp at h

theorem leads_iff {name t : Text} : Leads name t ↔ ∃ rest, split? t = some (name, rest) := by
  constructor
  · rintro ⟨hname, rest, rfl, hrest⟩
    exact ⟨rest, hname.split?_append hrest⟩
  · rintro ⟨rest, hsplit⟩
    obtain ⟨hname, hrest⟩ := isName_of_split? hsplit
    exact ⟨hname, rest, eq_append_of_split? hsplit, hrest⟩

theorem IsName.ne_nil {t : Text} (h : IsName t) : t ≠ [] := by
  obtain ⟨c, s, rfl, -, -⟩ := h
  simp

/-- A blank is no part of a name. -/
theorem isInner_of_isBlank {c : Char} (h : isBlank c = true) : isInner c = false := by
  simp only [isBlank, Bool.or_eq_true, beq_iff_eq] at h
  rcases h with ((rfl | rfl) | rfl) | rfl <;> decide

theorem stops_isInner_of_blanks {t rest : Text} (ht : Blanks t) (hrest : Stops isInner rest) :
    Stops isInner (t ++ rest) := by
  cases t with
  | nil => exact hrest
  | cons c t => exact stops_cons.2 (isInner_of_isBlank (ht c (by simp)))

theorem isInner_of_isStart {c : Char} (h : isStart c = true) : isInner c = true := by
  simp [isInner, h]

theorem IsName.not_mem {t : Text} (h : IsName t) {c : Char} (hc : isInner c = false) : c ∉ t := by
  obtain ⟨d, s, rfl, hd, hs⟩ := h
  intro hmem
  rcases List.mem_cons.1 hmem with rfl | hmem
  · rw [isInner_of_isStart hd] at hc
    exact Bool.noConfusion hc
  · rw [hs c hmem] at hc
    exact Bool.noConfusion hc

end Name

/-! ### Literals -/

namespace Literal

/-- A text that is one literal over a class of inner characters. -/
def IsLiteral (inner : Char → Bool) (t : Text) : Prop :=
  ∃ q body, t = q :: (body ++ [q]) ∧ isQuote q = true ∧ ∀ c ∈ body, c ≠ q ∧ inner c = true

theorem IsLiteral.split?_append {inner : Char → Bool} {image : Text} (h : IsLiteral inner image)
    (rest : Text) : split? inner (image ++ rest) = some (image, rest) := by
  obtain ⟨q, body, rfl, hq, hbody⟩ := h
  have hall : ∀ c ∈ body, (c != q && inner c) = true := by
    intro c hc
    simp [hbody c hc]
  have hstop : Stops (fun c => c != q && inner c) (q :: rest) := stops_cons.2 (by simp)
  have happ : q :: (body ++ [q]) ++ rest = q :: (body ++ q :: rest) := by simp
  rw [happ]
  simp only [split?, if_pos hq, dropWhile_append_stops hall hstop,
    takeWhile_append_stops hall hstop, if_true]

theorem isLiteral_of_split? {inner : Char → Bool} {t image rest : Text}
    (h : split? inner t = some (image, rest)) : IsLiteral inner image := by
  cases t with
  | nil => simp [split?] at h
  | cons q t =>
      simp only [split?] at h
      split at h
      · next hq =>
          split at h
          · simp at h
          · split at h
            · simp only [Option.some.injEq, Prod.mk.injEq] at h
              refine ⟨q, _, h.1.symm, hq, fun c hc => ?_⟩
              have := List.all_eq_true.1 List.all_takeWhile c hc
              simpa using this
            · simp at h
      · simp at h

/-- The first character of a literal is a quote. -/
theorem IsLiteral.stops {inner p : Char → Bool} {t rest : Text} (h : IsLiteral inner t)
    (hp : ∀ q, isQuote q = true → p q = false) : Stops p (t ++ rest) := by
  obtain ⟨q, body, rfl, hq, -⟩ := h
  exact stops_cons.2 (hp q hq)

theorem isBlank_of_isQuote {q : Char} (h : isQuote q = true) : isBlank q = false := by
  simp only [isQuote, Bool.or_eq_true, beq_iff_eq] at h
  rcases h with rfl | rfl <;> decide

end Literal

/-! ### References -/

namespace Reference

/-- A text that is one reference of a kind. -/
inductive IsReference : ReferenceKind → Text → Prop where
  | hexadecimal {digits : Text} (hne : digits ≠ []) (h : ∀ d ∈ digits, isHexDigit d = true) :
      IsReference .character ('&' :: '#' :: 'x' :: digits ++ [';'])
  | decimal {digits : Text} (hne : digits ≠ []) (h : ∀ d ∈ digits, d.isDigit = true) :
      IsReference .character ('&' :: '#' :: digits ++ [';'])
  | entity {name : Text} (h : Name.IsName name) : IsReference .entity ('&' :: name ++ [';'])

theorem body?_append {digit : Char → Bool} (hsemi : digit ';' = false) {digits : Text} (hne : digits ≠ [])
    (h : ∀ d ∈ digits, digit d = true) (rest : Text) : body? digit (digits ++ ';' :: rest) = some (digits, rest) := by
  have hstop : Stops digit (';' :: rest) := stops_cons.2 hsemi
  rw [body?, takeWhile_append_stops h hstop, dropWhile_append_stops h hstop]
  cases digits with
  | nil => exact absurd rfl hne
  | cons c digits => rfl

theorem of_body? {digit : Char → Bool} {t digits rest : Text} (h : body? digit t = some (digits, rest)) :
    digits ≠ [] ∧ ∀ d ∈ digits, digit d = true := by
  simp only [body?] at h
  split at h
  · next c cs tail htake hdrop =>
      simp only [Option.some.injEq, Prod.mk.injEq] at h
      rw [← h.1, ← htake]
      exact ⟨by simp [htake], fun d hd => List.all_eq_true.1 List.all_takeWhile d hd⟩
  · simp at h

/-- The two ways in which a reference is read: by digits of a class behind a fixed lead, or by a
name. -/
theorem split?_cases {t image rest : Text} {kind : ReferenceKind}
    (h : split? t = some (kind, image, rest)) :
    (∃ body s, kind = .character ∧ t = '&' :: '#' :: 'x' :: s ∧
        body? isHexDigit s = some (body, rest) ∧ image = '&' :: '#' :: 'x' :: body ++ [';']) ∨
      (∃ body s, kind = .character ∧ t = '&' :: '#' :: s ∧ (∀ u, s ≠ 'x' :: u) ∧
        body? Char.isDigit s = some (body, rest) ∧ image = '&' :: '#' :: body ++ [';']) ∨
      ∃ name s, kind = .entity ∧ t = '&' :: s ∧ Name.split? s = some (name, ';' :: rest) ∧
        image = '&' :: name ++ [';'] := by
  simp only [split?] at h
  split at h
  · next s =>
      simp only [Option.map_eq_some_iff, Prod.mk.injEq] at h
      obtain ⟨⟨body, tail⟩, hbody, rfl, rfl, rfl⟩ := h
      exact .inl ⟨body, s, rfl, rfl, hbody, rfl⟩
  · next s hx =>
      simp only [Option.map_eq_some_iff, Prod.mk.injEq] at h
      obtain ⟨⟨body, tail⟩, hbody, rfl, rfl, rfl⟩ := h
      exact .inr (.inl ⟨body, s, rfl, rfl, fun u hu => hx u hu, hbody, rfl⟩)
  · next s _ _ =>
      split at h
      · next name tail hname =>
          simp only [Option.some.injEq, Prod.mk.injEq] at h
          obtain ⟨rfl, rfl, rfl⟩ := h
          exact .inr (.inr ⟨name, s, rfl, rfl, hname, rfl⟩)
      · simp at h
  · simp at h

theorem split?_hexadecimal (s : Text) : split? ('&' :: '#' :: 'x' :: s) =
    (body? isHexDigit s).map fun (body, rest) =>
      (.character, '&' :: '#' :: 'x' :: body ++ [';'], rest) := rfl

theorem split?_decimal {s : Text} (hx : ∀ u, s ≠ 'x' :: u) : split? ('&' :: '#' :: s) =
    (body? Char.isDigit s).map fun (body, rest) =>
      (.character, '&' :: '#' :: body ++ [';'], rest) := by
  rw [split?.eq_2]
  exact hx

theorem split?_entity {s name rest : Text} (h : Name.split? s = some (name, ';' :: rest)) :
    split? ('&' :: s) = some (.entity, '&' :: name ++ [';'], rest) := by
  cases s with
  | nil => simp [Name.split?] at h
  | cons c s =>
      have hc : c ≠ '#' := by
        rintro rfl
        have hstart : Name.isStart '#' = false := by decide
        simp [Name.split?, hstart] at h
      rw [split?.eq_3]
      · simp only [h]
      · intro u hu
        exact hc (List.cons.inj hu).1
      · intro u hu
        exact hc (List.cons.inj hu).1

theorem IsReference.split?_append {kind : ReferenceKind} {image : Text} (h : IsReference kind image)
    (rest : Text) : split? (image ++ rest) = some (kind, image, rest) := by
  cases h with
  | @hexadecimal digits hne h =>
      have happ : '&' :: '#' :: 'x' :: digits ++ [';'] ++ rest = '&' :: '#' :: 'x' :: (digits ++ ';' :: rest) := by simp
      rw [happ, split?_hexadecimal, body?_append (by decide) hne h]
      rfl
  | @decimal digits hne h =>
      have happ : '&' :: '#' :: digits ++ [';'] ++ rest = '&' :: '#' :: (digits ++ ';' :: rest) := by simp
      have hx : ∀ u, digits ++ ';' :: rest ≠ 'x' :: u := by
        cases digits with
        | nil => exact absurd rfl hne
        | cons c digits =>
            rintro u hu
            have hc := h c (by simp)
            rw [(List.cons.inj hu).1] at hc
            exact absurd hc (by decide)
      rw [happ, split?_decimal hx, body?_append (by decide) hne h]
      rfl
  | @entity name h =>
      have happ : '&' :: name ++ [';'] ++ rest = '&' :: (name ++ ';' :: rest) := by simp
      rw [happ, split?_entity (h.split?_append (stops_cons.2 (by decide)))]

theorem isReference_of_split? {t image rest : Text} {kind : ReferenceKind}
    (h : split? t = some (kind, image, rest)) : IsReference kind image := by
  rcases split?_cases h with ⟨body, s, rfl, rfl, hbody, rfl⟩ | ⟨body, s, rfl, rfl, hx, hbody, rfl⟩ |
    ⟨name, s, rfl, rfl, hname, rfl⟩
  · exact .hexadecimal (of_body? hbody).1 (of_body? hbody).2
  · exact .decimal (of_body? hbody).1 (of_body? hbody).2
  · exact .entity (Name.isName_of_split? hname).1

/-- A reference starts with an ampersand and ends with a semicolon. -/
theorem IsReference.shape {kind : ReferenceKind} {image : Text} (h : IsReference kind image) :
    ∃ body, image = '&' :: (body ++ [';']) := by
  cases h with
  | @hexadecimal digits => exact ⟨'#' :: 'x' :: digits, rfl⟩
  | @decimal digits => exact ⟨'#' :: digits, rfl⟩
  | @entity name => exact ⟨name, rfl⟩

/-- Behind its ampersand a reference holds the characters of names and numbers, a hash and a semicolon. -/
theorem IsReference.not_mem_tail {kind : ReferenceKind} {image : Text} (h : IsReference kind image) {c : Char}
    (hinner : Name.isInner c = false) (hhex : isHexDigit c = false) (hhash : c ≠ '#') (hsemi : c ≠ ';') :
    c ∉ image.tail := by
  have hdigits : ∀ {digit : Char → Bool} {digits : Text}, digit c = false → (∀ d ∈ digits, digit d = true) →
      c ∉ digits := by
    intro digit digits hdigit h hmem
    rw [h c hmem] at hdigit
    cases hdigit
  have hx : c ≠ 'x' := by
    rintro rfl
    exact absurd hinner (by decide)
  cases h with
  | hexadecimal _ h =>
      have := hdigits hhex h
      simp_all
  | decimal _ h =>
      have hdigit : c.isDigit = false := by simp_all [Name.isInner]
      have := hdigits hdigit h
      simp_all
  | entity h =>
      have := h.not_mem hinner
      simp_all

theorem IsReference.not_mem_newline {kind : ReferenceKind} {image : Text} (h : IsReference kind image) :
    '\n' ∉ image := by
  obtain ⟨body, rfl⟩ := h.shape
  exact List.not_mem_cons_of_ne_of_not_mem (by decide) (h.not_mem_tail (by decide) (by decide) (by decide) (by decide))

end Reference

end XmlTidy
