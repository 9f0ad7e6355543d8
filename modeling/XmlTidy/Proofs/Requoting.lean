import XmlTidy.Json.Read
import XmlTidy.Proofs.StyledAttributes

/-!
What requoting does to the value of an attribute. The value is the inner text of the literal with its
references expanded, in one scan from left to right. Inside a reference there is no quote and no second
ampersand, so escaping a quote neither cuts a reference in two nor completes one that was only begun: the
scan finds the same references, and one more for each quote that was escaped.
-/

namespace XmlTidy

/-! ### References -/

namespace Reference

/-- The character with a number, if there is one. -/
def charOf? (n : Nat) : Option Char :=
  if n.isValidChar then some (Char.ofNat n) else none

/-- The number that digits stand for. -/
def number (base : Nat) (digits : Text) : Nat :=
  digits.foldl (fun n d => base * n + (Json.hexValue? d).getD 0) 0

/-- The entities that need no declaration. -/
def predefined : List (Text × Char) :=
  [("&quot;".toList, '"'), ("&apos;".toList, '\''), ("&amp;".toList, '&'), ("&lt;".toList, '<'),
   ("&gt;".toList, '>')]

/-- The character that a reference stands for, if it can be told without a declaration. -/
def character? : Text → Option Char
  | '&' :: '#' :: 'x' :: digits => charOf? (number 16 digits.dropLast)
  | '&' :: '#' :: digits => charOf? (number 10 digits.dropLast)
  | image => predefined.lookup image

/-- The character that the reference at the front of a text stands for, and what follows the reference. -/
def expand? (t : Text) : Option (Char × Text) :=
  (split? t).bind fun (_, image, rest) => (character? image).map (·, rest)

theorem length_of_expand? {t rest : Text} {d : Char} (h : expand? t = some (d, rest)) :
    rest.length < t.length := by
  obtain ⟨⟨kind, image, rest'⟩, hsplit, hchar⟩ := Option.bind_eq_some_iff.1 h
  obtain ⟨d', -, hpair⟩ := Option.map_eq_some_iff.1 hchar
  obtain ⟨-, rfl⟩ := Prod.mk.inj hpair
  have himage := List.length_pos_of_ne_nil (ne_nil_of_split? hsplit)
  rw [eq_append_of_split? hsplit, List.length_append]
  omega

end Reference

/-- A text with its references expanded, as far as they can be told without a declaration. An ampersand
that starts no such reference stands for itself. -/
def Text.expandReferences : Text → Text
  | [] => []
  | c :: t =>
      match _h : Reference.expand? (c :: t) with
      | some (d, rest) => d :: expandReferences rest
      | none => c :: expandReferences t
termination_by t => t.length
decreasing_by
  · exact Reference.length_of_expand? _h
  · simp

theorem Text.expandReferences_of_some {c d : Char} {t rest : Text}
    (h : Reference.expand? (c :: t) = some (d, rest)) :
    expandReferences (c :: t) = d :: expandReferences rest := by
  rw [expandReferences]
  split
  · next d' rest' h' =>
      obtain ⟨rfl, rfl⟩ := Prod.mk.inj (Option.some.inj (h'.symm.trans h))
      rfl
  · next h' => cases h'.symm.trans h

theorem Text.expandReferences_of_none {c : Char} {t : Text} (h : Reference.expand? (c :: t) = none) :
    expandReferences (c :: t) = c :: expandReferences t := by
  rw [expandReferences]
  split
  · next h' => cases h'.symm.trans h
  · rfl

/-! ### Escaping -/

namespace Reference

section Escaping

variable {q : Char} (hquote : Literal.isQuote q = true) {new : Text}
include hquote

/-- Escaping quotes leaves what is read as a reference as it is. -/
theorem split?_cons_replaceChar {c : Char} (t : Text) :
    split? (c :: t.replaceChar q ('&' :: new)) =
      (split? (c :: t)).map fun (kind, image, rest) => (kind, image, rest.replaceChar q ('&' :: new)) := by
  have hinner : Name.isInner q = false ∧ isHexDigit q = false ∧ q ≠ '#' ∧ q ≠ ';' := by
    simp only [Literal.isQuote, Bool.or_eq_true, beq_iff_eq] at hquote
    rcases hquote with rfl | rfl <;> decide
  cases hsplit : split? (c :: t) with
  | some found =>
      obtain ⟨kind, image, rest⟩ := found
      have href := isReference_of_split? hsplit
      obtain ⟨body, rfl⟩ := href.shape
      obtain ⟨rfl, rfl⟩ : c = '&' ∧ t = body ++ [';'] ++ rest := by simpa using eq_append_of_split? hsplit
      have hbody : q ∉ body ++ [';'] := href.not_mem_tail hinner.1 hinner.2.1 hinner.2.2.1 hinner.2.2.2
      have hescaped : Text.replaceChar (body ++ [';'] ++ rest) q ('&' :: new) =
          body ++ [';'] ++ rest.replaceChar q ('&' :: new) := by
        rw [Text.replaceChar, List.flatMap_append]
        exact congrArg (· ++ _) (replaceChar_of_not_mem hbody _)
      rw [hescaped]
      exact href.split?_append _
  | none =>
      -- a reference that escaping had completed would have been there before
      cases hsplit' : split? (c :: t.replaceChar q ('&' :: new)) with
      | none => rfl
      | some found =>
          obtain ⟨kind, image, rest⟩ := found
          have href := isReference_of_split? hsplit'
          obtain ⟨body, rfl⟩ := href.shape
          obtain ⟨rfl, heq⟩ : c = '&' ∧ t.replaceChar q ('&' :: new) = body ++ [';'] ++ rest := by
            simpa using eq_append_of_split? hsplit'
          have hbody : '&' ∉ body ++ [';'] := href.not_mem_tail (by decide) (by decide) (by decide) (by decide)
          obtain ⟨t', rfl, -⟩ := exists_of_replaceChar_eq_append hbody heq
          rw [← List.cons_append, href.split?_append] at hsplit
          cases hsplit

theorem expand?_cons_replaceChar {c : Char} (t : Text) :
    expand? (c :: t.replaceChar q ('&' :: new)) =
      (expand? (c :: t)).map fun (d, rest) => (d, rest.replaceChar q ('&' :: new)) := by
  rw [expand?, expand?, split?_cons_replaceChar hquote]
  cases split? (c :: t) with
  | none => rfl
  | some found =>
      obtain ⟨kind, image, rest⟩ := found
      cases hchar : character? image <;> simp [hchar]

end Escaping

theorem expand?_of_ne {c : Char} (h : c ≠ '&') (t : Text) : expand? (c :: t) = none := by
  have hsplit : split? (c :: t) = none := by
    cases hsplit : split? (c :: t) with
    | none => rfl
    | some found =>
        obtain ⟨kind, image, rest⟩ := found
        obtain ⟨body, rfl⟩ := (isReference_of_split? hsplit).shape
        exact absurd (List.cons.inj (eq_append_of_split? hsplit)).1 h
  rw [expand?, hsplit]
  rfl

end Reference

/-- Escaping a quote by a reference to it keeps what a text stands for. -/
theorem Text.expandReferences_replaceChar {q : Char} (hquote : Literal.isQuote q = true) {new : Text}
    (hnew : ∀ rest, Reference.expand? ('&' :: (new ++ rest)) = some (q, rest)) (t : Text) :
    (t.replaceChar q ('&' :: new)).expandReferences = t.expandReferences := by
  have hamp : q ≠ '&' := by
    rintro rfl
    exact absurd hquote (by decide)
  have hkeep : ∀ {c : Char} {t : Text}, c ≠ q →
      Text.replaceChar (c :: t) q ('&' :: new) = c :: t.replaceChar q ('&' :: new) := by
    intro c t hc
    rw [replaceChar, List.flatMap_cons, if_neg hc]
    rfl
  fun_induction Text.expandReferences t with
  | case1 => simp [replaceChar, expandReferences]
  | case2 c t d rest hexpand ih =>
      have hc : c ≠ q := by
        rintro rfl
        rw [Reference.expand?_of_ne hamp] at hexpand
        cases hexpand
      have hescaped := @Reference.expand?_cons_replaceChar q hquote new c t
      rw [hexpand] at hescaped
      rw [hkeep hc, expandReferences_of_some hescaped, ih]
  | case3 c t hexpand ih =>
      by_cases hc : c = q
      · subst hc
        have hescape : Text.replaceChar (c :: t) c ('&' :: new) =
            '&' :: (new ++ Text.replaceChar t c ('&' :: new)) := by
          rw [replaceChar, List.flatMap_cons, if_pos rfl]
          rfl
        rw [hescape, expandReferences_of_some (hnew _), ih]
      · have hescaped := @Reference.expand?_cons_replaceChar q hquote new c t
        rw [hexpand] at hescaped
        rw [hkeep hc, expandReferences_of_none hescaped, ih]

/-! ### Requoting -/

theorem expandReferences_requote (style : QuoteStyle) (literal : Text) :
    (Attribute.innerOf (requote style literal)).expandReferences =
      (Attribute.innerOf literal).expandReferences := by
  have hpredefined : ∀ (name : Text) {q : Char}, Name.IsName name →
      Reference.character? ('&' :: name ++ [';']) = some q →
      ∀ rest, Reference.expand? ('&' :: (name ++ [';'] ++ rest)) = some (q, rest) := by
    intro name q hname hchar rest
    rw [Reference.expand?, ← List.cons_append, ← List.cons_append, (Reference.IsReference.entity hname).split?_append]
    simpa using hchar
  cases style with
  | preserve => rfl
  | double =>
      rw [requote, innerOf_doubleQuoted]
      exact Text.expandReferences_replaceChar rfl
        (hpredefined ['q', 'u', 'o', 't'] ⟨'q', _, rfl, rfl, List.all_eq_true.1 rfl⟩ rfl) _
  | single =>
      rw [requote, innerOf_singleQuoted]
      exact Text.expandReferences_replaceChar rfl
        (hpredefined ['a', 'p', 'o', 's'] ⟨'a', _, rfl, rfl, List.all_eq_true.1 rfl⟩ rfl) _

/-- The quote that a style puts around every literal, if it does. -/
def QuoteStyle.mark? : QuoteStyle → Option Char
  | .double => some '"'
  | .single => some '\''
  | .preserve => none

theorem Literal.value?_eq_some_iff {literal : Text} :
    value? literal = some (literal, []) ↔ IsLiteral (· != '<') literal := by
  refine ⟨isLiteral_of_split?, fun h => ?_⟩
  have hsplit := h.split?_append []
  rwa [List.append_nil] at hsplit

/-- Requoting the literal of an attribute gives a literal between the quotes of the style with the same value, and
requoting that once more changes nothing. -/
theorem Literal.value?_requote (style : QuoteStyle) {literal : Text}
    (h : Literal.value? literal = some (literal, [])) :
    Literal.value? (requote style literal) = some (requote style literal, []) ∧
      (∀ q ∈ style.mark?, (requote style literal).head? = some q) ∧
      (Attribute.innerOf (requote style literal)).expandReferences =
        (Attribute.innerOf literal).expandReferences ∧
      requote style (requote style literal) = requote style literal := by
  refine ⟨?_, ?_, expandReferences_requote style literal, requote_requote style literal⟩
  · rw [value?_eq_some_iff] at h ⊢
    exact isLiteral_requote style h
  · cases style <;> rintro _ ⟨⟩ <;> rfl

/-- Quotes among references that are only begun. -/
def Literal.halves : Text := "'&\"&#34\";&am\"p;&#x22;'".toList

theorem Literal.value?_requote_halves :
    Literal.value? halves = some (halves, []) ∧
      requote .double halves = "\"&&quot;&#34&quot;;&am&quot;p;&#x22;\"".toList ∧
      (Attribute.innerOf halves).expandReferences = "&\"&#34\";&am\"p;\"".toList ∧
      (Attribute.innerOf (requote .double halves)).expandReferences = "&\"&#34\";&am\"p;\"".toList := by
  have hvalue : Literal.value? halves = some (halves, []) := by decide
  have hexpand : (Attribute.innerOf halves).expandReferences = "&\"&#34\";&am\"p;\"".toList := by decide +kernel
  exact ⟨hvalue, by decide, hexpand, (value?_requote .double hvalue).2.2.1.trans hexpand⟩

end XmlTidy
