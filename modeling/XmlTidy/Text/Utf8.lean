import XmlTidy.Text.Basic

/-!
Bytes as text. Decoding UTF-8 is strict: it stops at the first byte that starts no character, and at the
first sequence that is cut short, be it by another byte or by the end. The fault covers the bytes of
the sequence that were still right.
-/

namespace XmlTidy

abbrev Bytes := List UInt8

/-- What is wrong with a sequence of bytes. -/
inductive Utf8Reason where
  | start
  | continuation
  | truncated
deriving DecidableEq, Repr

/-- The first bytes that are no text, and where they stand. -/
structure Utf8Fault where
  position : Nat
  lead : UInt8
  tail : Bytes
  reason : Utf8Reason
deriving DecidableEq, Repr

namespace Utf8Fault

def reasonText : Utf8Reason → String
  | .start => "invalid start byte"
  | .continuation => "invalid continuation byte"
  | .truncated => "unexpected end of data"

def message (f : Utf8Fault) : String :=
  let digits := Nat.toDigits 16 f.lead.toNat
  let place :=
    if f.tail.isEmpty then
      "byte 0x" ++ String.ofList (List.replicate (2 - digits.length) '0' ++ digits) ++
        " in position " ++ toString f.position
    else
      "bytes in position " ++ toString f.position ++ "-" ++ toString (f.position + f.tail.length)
  "'utf-8' codec can't decode " ++ place ++ ": " ++ reasonText f.reason

end Utf8Fault

namespace Utf8

def isContinuation (b : UInt8) : Bool := 0x80 ≤ b && b ≤ 0xBF

/-- How many bytes follow a first byte. -/
def tailLength? (lead : UInt8) : Option Nat :=
  if lead < 0x80 then some 0
  else if lead < 0xC2 then none
  else if lead < 0xE0 then some 1
  else if lead < 0xF0 then some 2
  else if lead < 0xF5 then some 3
  else none

/-- Whether a byte may stand second. This rules out the long forms, the surrogates, and what lies beyond
the last character. -/
def isSecond (lead b : UInt8) : Bool :=
  isContinuation b &&
    (if lead = 0xE0 then 0xA0 ≤ b
     else if lead = 0xED then b < 0xA0
     else if lead = 0xF0 then 0x90 ≤ b
     else if lead = 0xF4 then b < 0x90
     else true)

/-- At most `n` bytes, of which the first is right by `ok` and the others continue a sequence, and
what follows them. -/
def takeTail (ok : UInt8 → Bool) : Nat → Bytes → Bytes × Bytes
  | 0, rest => ([], rest)
  | _ + 1, [] => ([], [])
  | n + 1, b :: rest =>
      if ok b then
        let (tail, rest) := takeTail isContinuation n rest
        (b :: tail, rest)
      else ([], b :: rest)

theorem length_takeTail (ok : UInt8 → Bool) (n : Nat) (bytes : Bytes) :
    (takeTail ok n bytes).2.length ≤ bytes.length := by
  induction n generalizing ok bytes with
  | zero => simp [takeTail]
  | succ n ih =>
      cases bytes with
      | nil => simp [takeTail]
      | cons b rest =>
          rw [takeTail]
          split
          · exact Nat.le_succ_of_le (ih isContinuation rest)
          · exact Nat.le_refl _

/-- The character of a whole sequence. -/
def charOf (lead : UInt8) (tail : Bytes) : Char :=
  let bits :=
    match tail.length with
    | 0 => lead.toNat
    | 1 => lead.toNat % 0x20
    | 2 => lead.toNat % 0x10
    | _ => lead.toNat % 0x08
  Char.ofNat (tail.foldl (fun n b => n * 0x40 + b.toNat % 0x40) bits)

/-- Decodes the bytes from a position on; the text so far is in reverse. -/
def decodeFrom (position : Nat) (reversed : Text) : Bytes → Except Utf8Fault Text
  | [] => .ok reversed.reverse
  | lead :: rest =>
      match tailLength? lead with
      | none => .error ⟨position, lead, [], .start⟩
      | some n =>
          let taken := takeTail (isSecond lead) n rest
          if taken.1.length = n then
            decodeFrom (position + 1 + n) (charOf lead taken.1 :: reversed) taken.2
          else
            .error ⟨position, lead, taken.1, if taken.2.isEmpty then .truncated else .continuation⟩
termination_by bytes => bytes.length
decreasing_by exact Nat.lt_succ_of_le (length_takeTail _ _ _)

def decode (bytes : Bytes) : Except Utf8Fault Text :=
  decodeFrom 0 [] bytes

def encode (t : Text) : Bytes :=
  t.flatMap String.utf8EncodeChar

end Utf8

/-- One character for each byte, with the byte as its number. -/
def latin1 (bytes : Bytes) : Text :=
  bytes.map fun b => Char.ofNat b.toNat

end XmlTidy
