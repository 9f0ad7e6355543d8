/-!
Text as a list of characters, and the cuts made in it. Every offset, column and length of the
library counts characters. A line ends at a newline and nowhere else; the blanks of markup are the
space, the tab, the carriage return and the newline.
-/

namespace XmlTidy

abbrev Text := List Char

/-- The blanks of markup. -/
def isBlank (c : Char) : Bool :=
  c == ' ' || c == '\t' || c == '\r' || c == '\n'

/-- The blanks that a line loses at its end when it is laid out. -/
def isPadding (c : Char) : Bool :=
  c == ' ' || c == '\t'

namespace Text

/-! ### Leading parts -/

/-- What follows `lead` in a text that starts with it. -/
def after? : Text → Text → Option Text
  | [], t => some t
  | _ :: _, [] => none
  | c :: lead, d :: t => if c = d then after? lead t else none

theorem after?_eq_some_iff {lead t rest : Text} :
    after? lead t = some rest ↔ t = lead ++ rest := by
  induction lead generalizing t with
  | nil => simp [after?]
  | cons c lead ih =>
      cases t with
      | nil => simp [after?]
      | cons d t =>
          by_cases h : c = d
          · simp [after?, h, ih]
          · simp [after?, h, Ne.symm h]

def startsWith (lead t : Text) : Bool :=
  (after? lead t).isSome

/-- The shortest leading part that ends with `stop`, and what follows it. -/
def through? (stop : Text) : Text → Option (Text × Text)
  | [] => if stop = [] then some ([], []) else none
  | c :: t =>
      match after? stop (c :: t) with
      | some rest => some (stop, rest)
      | none => (through? stop t).map fun (image, rest) => (c :: image, rest)

theorem eq_append_of_through? {stop t image rest : Text}
    (h : through? stop t = some (image, rest)) : t = image ++ rest := by
  induction t generalizing image with
  | nil =>
      simp only [through?] at h
      split at h <;> simp_all
  | cons c t ih =>
      simp only [through?] at h
      split at h
      · next found hfound =>
          simp only [Option.some.injEq, Prod.mk.injEq] at h
          rw [after?_eq_some_iff.1 hfound, h.1, h.2]
      · simp only [Option.map_eq_some_iff, Prod.mk.injEq] at h
        obtain ⟨⟨image', rest'⟩, hrest, himage, rfl⟩ := h
        rw [← himage, List.cons_append, ← ih hrest]

theorem ne_nil_of_through? {stop t image rest : Text} (hstop : stop ≠ [])
    (h : through? stop t = some (image, rest)) : image ≠ [] := by
  cases t with
  | nil => simp [through?, hstop] at h
  | cons c t =>
      simp only [through?] at h
      split at h
      · simp only [Option.some.injEq, Prod.mk.injEq] at h
        rwa [← h.1]
      · simp only [Option.map_eq_some_iff, Prod.mk.injEq] at h
        obtain ⟨⟨image', rest'⟩, -, himage, -⟩ := h
        simp [← himage]

/-! ### Trimming and slicing -/

/-- The text without the characters of a class at its end. -/
def dropEndWhile (p : Char → Bool) (t : Text) : Text :=
  (t.reverse.dropWhile p).reverse

/-- The text without the characters of a class at either end. -/
def stripWhile (p : Char → Bool) (t : Text) : Text :=
  dropEndWhile p (t.dropWhile p)

/-- The text without its leading and trailing blanks. -/
def trim (t : Text) : Text :=
  stripWhile isBlank t

def endsBlank (t : Text) : Bool :=
  t != dropEndWhile isBlank t

/-- A place in a text, where a negative number counts from the end. -/
def place (t : Text) : Int → Nat
  | .ofNat n => n
  | .negSucc n => t.length - (n + 1)

/-- The characters from place `start` up to `stop`. Places past the end stand for the end. -/
def slice (t : Text) (start stop : Int) : Text :=
  (t.take (t.place stop)).drop (t.place start)

/-! ### Lines -/

def hasNewline (t : Text) : Bool :=
  t.contains '\n'

/-- The lines of a text, without their newlines. A text with `n` newlines has `n + 1` lines. -/
def lines (t : Text) : List Text :=
  t.foldr (fun c ls => if c = '\n' then [] :: ls else ls.modifyHead (c :: ·)) [[]]

/-- The white space of all scripts. -/
def isWhiteSpace (c : Char) : Bool :=
  let n := c.toNat
  (0x09 ≤ n && n ≤ 0x0D) || (0x1C ≤ n && n ≤ 0x20) || n == 0x85 || n == 0xA0 || n == 0x1680 ||
    (0x2000 ≤ n && n ≤ 0x200A) || n == 0x2028 || n == 0x2029 || n == 0x202F || n == 0x205F ||
    n == 0x3000

/-- What stands after the last newline. -/
def lastLine (t : Text) : Text :=
  (t.reverse.takeWhile (· != '\n')).reverse

/-- A carriage return, alone or before a newline, becomes one newline. -/
def unifyLineEnds : Text → Text
  | [] => []
  | '\r' :: '\n' :: t => '\n' :: unifyLineEnds t
  | '\r' :: t => '\n' :: unifyLineEnds t
  | c :: t => c :: unifyLineEnds t

def byteOrderMark : Char := '\uFEFF'

def hasMark (t : Text) : Bool :=
  t.head? == some byteOrderMark

/-- The text that is read: without a leading byte order mark, and with newlines as its only line
ends. -/
def normalize (t : Text) : Text :=
  unifyLineEnds (if t.hasMark then t.tail else t)

/-- Every newline written as `terminator`. -/
def withLineEnds (t terminator : Text) : Text :=
  t.flatMap fun c => if c = '\n' then terminator else [c]

/-- Every occurrence of a character written as `new`. -/
def replaceChar (t : Text) (old : Char) (new : Text) : Text :=
  t.flatMap fun c => if c = old then new else [c]

/-! ### Order -/

/-- Texts in the order of their characters, a text before its extensions. -/
def compare : Text → Text → Ordering
  | [], [] => .eq
  | [], _ :: _ => .lt
  | _ :: _, [] => .gt
  | c :: s, d :: t => if c < d then .lt else if d < c then .gt else compare s t

end Text

end XmlTidy
