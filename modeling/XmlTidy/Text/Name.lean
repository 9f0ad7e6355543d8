import XmlTidy.Text.Basic

/-!
The lexical classes of markup: names, quoted literals and references. Each is read off the front of
a text and comes with what follows it.
-/

namespace XmlTidy

/-- A class of characters given by closed ranges of code points. -/
def inRanges (ranges : List (Nat × Nat)) (c : Char) : Bool :=
  ranges.any fun (lo, hi) => lo ≤ c.toNat && c.toNat ≤ hi

namespace Name

/-- The characters that can begin a name, besides the ASCII letters, `_` and `:`. -/
def startRanges : List (Nat × Nat) :=
  [(0xC0, 0xD6), (0xD8, 0xF6), (0xF8, 0x2FF), (0x370, 0x37D), (0x37F, 0x1FFF),
   (0x200C, 0x200D), (0x2070, 0x218F), (0x2C00, 0x2FEF), (0x3001, 0xD7FF),
   (0xF900, 0xFDCF), (0xFDF0, 0xFFFD)]

/-- The characters that can only continue a name, besides `-`, `.` and the ASCII digits. -/
def innerRanges : List (Nat × Nat) :=
  [(0xB7, 0xB7), (0x300, 0x36F), (0x203F, 0x2040)]

def isStart (c : Char) : Bool :=
  c.isAlpha || c == '_' || c == ':' || inRanges startRanges c

def isInner (c : Char) : Bool :=
  isStart c || c == '-' || c == '.' || c.isDigit || inRanges innerRanges c

/-- The longest name at the front of a text. -/
def split? : Text → Option (Text × Text)
  | [] => none
  | c :: t => if isStart c then some (c :: t.takeWhile isInner, t.dropWhile isInner) else none

theorem eq_append_of_split? {t name rest : Text} (h : split? t = some (name, rest)) :
    t = name ++ rest := by
  cases t with
  | nil => simp [split?] at h
  | cons c t =>
      simp only [split?] at h
      split at h
      · simp only [Option.some.injEq, Prod.mk.injEq] at h
        rw [← h.1, ← h.2, List.cons_append, List.takeWhile_append_dropWhile]
      · simp at h

theorem ne_nil_of_split? {t name rest : Text} (h : split? t = some (name, rest)) :
    name ≠ [] := by
  cases t with
  | nil => simp [split?] at h
  | cons c t =>
      simp only [split?] at h
      split at h
      · simp only [Option.some.injEq, Prod.mk.injEq] at h
        rw [← h.1]
        simp
      · simp at h

end Name

namespace Literal

def isQuote (c : Char) : Bool :=
  c == '"' || c == '\''

/-- A literal between two equal quotes whose inner characters are all of the class `inner`,
quotes included. -/
def split? (inner : Char → Bool) : Text → Option (Text × Text)
  | [] => none
  | q :: t =>
      if isQuote q then
        let body := t.takeWhile fun c => c != q && inner c
        match t.dropWhile fun c => c != q && inner c with
        | [] => none
        | d :: rest => if d = q then some (q :: (body ++ [q]), rest) else none
      else none

/-- Any character may stand in a literal of a document type declaration. -/
def quoted? : Text → Option (Text × Text) :=
  split? fun _ => true

/-- An attribute value holds no opening angle bracket. -/
def value? : Text → Option (Text × Text) :=
  split? (· != '<')

theorem eq_append_of_split? {inner : Char → Bool} {t image rest : Text}
    (h : split? inner t = some (image, rest)) : t = image ++ rest := by
  cases t with
  | nil => simp [split?] at h
  | cons q t =>
      simp only [split?] at h
      split at h
      · split at h
        · simp at h
        · next d tail htail =>
            split at h
            · next hd =>
                subst hd
                simp only [Option.some.injEq, Prod.mk.injEq] at h
                rw [← h.1, ← h.2]
                simp only [List.cons_append, List.append_assoc, List.nil_append]
                rw [← htail, List.takeWhile_append_dropWhile]
            · simp at h
      · simp at h

end Literal

inductive ReferenceKind where
  | character
  | entity
deriving DecidableEq, Repr

namespace Reference

def isHexDigit (c : Char) : Bool :=
  c.isDigit || ('a' ≤ c && c ≤ 'f') || ('A' ≤ c && c ≤ 'F')

/-- The longest run of a class of characters, if it is not empty and a semicolon follows it. -/
def body? (digit : Char → Bool) (t : Text) : Option (Text × Text) :=
  match t.takeWhile digit, t.dropWhile digit with
  | c :: cs, ';' :: rest => some (c :: cs, rest)
  | _, _ => none

/-- A character reference in decimals or hexadecimals, or an entity reference. -/
def split? (t : Text) : Option (ReferenceKind × Text × Text) :=
  match t with
  | '&' :: '#' :: 'x' :: t =>
      (body? isHexDigit t).map fun (body, rest) => (.character, '&' :: '#' :: 'x' :: body ++ [';'], rest)
  | '&' :: '#' :: t =>
      (body? Char.isDigit t).map fun (body, rest) => (.character, '&' :: '#' :: body ++ [';'], rest)
  | '&' :: t =>
      match Name.split? t with
      | some (name, ';' :: rest) => some (.entity, '&' :: name ++ [';'], rest)
      | _ => none
  | _ => none

theorem eq_append_of_body? {digit : Char → Bool} {t body rest : Text}
    (h : body? digit t = some (body, rest)) : t = body ++ ';' :: rest := by
  simp only [body?] at h
  split at h
  · next c cs tail htake hdrop =>
      simp only [Option.some.injEq, Prod.mk.injEq] at h
      rw [← h.1, ← h.2, ← htake, ← hdrop, List.takeWhile_append_dropWhile]
  · simp at h

theorem eq_append_of_split? {t image rest : Text} {kind : ReferenceKind}
    (h : split? t = some (kind, image, rest)) : t = image ++ rest := by
  simp only [split?] at h
  split at h
  · simp only [Option.map_eq_some_iff, Prod.mk.injEq] at h
    obtain ⟨⟨body, tail⟩, hbody, -, himage, hrest⟩ := h
    rw [eq_append_of_body? hbody, ← himage, ← hrest]
    simp
  · simp only [Option.map_eq_some_iff, Prod.mk.injEq] at h
    obtain ⟨⟨body, tail⟩, hbody, -, himage, hrest⟩ := h
    rw [eq_append_of_body? hbody, ← himage, ← hrest]
    simp
  · split at h
    · next name tail hname =>
        simp only [Option.some.injEq, Prod.mk.injEq] at h
        rw [Name.eq_append_of_split? hname, ← h.2.1, ← h.2.2]
        simp
    · simp at h
  · simp at h

theorem ne_nil_of_split? {t image rest : Text} {kind : ReferenceKind}
    (h : split? t = some (kind, image, rest)) : image ≠ [] := by
  simp only [split?] at h
  split at h
  · simp only [Option.map_eq_some_iff, Prod.mk.injEq] at h
    obtain ⟨⟨body, tail⟩, hbody, -, himage, hrest⟩ := h
    simp [← himage]
  · simp only [Option.map_eq_some_iff, Prod.mk.injEq] at h
    obtain ⟨⟨body, tail⟩, hbody, -, himage, hrest⟩ := h
    simp [← himage]
  · split at h
    · next name tail hname =>
        simp only [Option.some.injEq, Prod.mk.injEq] at h
        simp [← h.2.1]
    · simp at h
  · simp at h

end Reference

end XmlTidy
