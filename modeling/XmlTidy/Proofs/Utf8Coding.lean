import Mathlib.Data.List.Basic
import Mathlib.Tactic.Common
import XmlTidy.Text.Utf8

/-!
Decoding undoes encoding, and nothing else is decoded: bytes are read as a text exactly if they are the encoding of that
text. A sequence is a first byte with as many bytes behind it as it asks for, of which the second is in the range that
the first one leaves. Each character is encoded as one sequence, and each sequence is the encoding of its character.
-/

namespace XmlTidy.Utf8

/-- Bytes that may stand behind a first byte: one that is right by `ok`, and others that continue a sequence. -/
def Continues (ok : UInt8 → Bool) : Bytes → Prop
  | [] => True
  | b :: tail => ok b = true ∧ ∀ c ∈ tail, isContinuation c = true

/-- The bytes of one character. -/
structure Sequence (lead : UInt8) (tail : Bytes) : Prop where
  length : tailLength? lead = some tail.length
  continues : Continues (isSecond lead) tail

/-! ### Bytes as numbers -/

theorem isContinuation_iff {b : UInt8} : isContinuation b = true ↔ 0x80 ≤ b.toNat ∧ b.toNat ≤ 0xBF := by
  simp [isContinuation, UInt8.le_iff_toNat_le]

theorem isSecond_iff {lead b : UInt8} : isSecond lead b = true ↔
    (0x80 ≤ b.toNat ∧ b.toNat ≤ 0xBF) ∧ (lead.toNat = 0xE0 → 0xA0 ≤ b.toNat) ∧ (lead.toNat = 0xED → b.toNat < 0xA0) ∧
      (lead.toNat = 0xF0 → 0x90 ≤ b.toNat) ∧ (lead.toNat = 0xF4 → b.toNat < 0x90) := by
  simp only [isSecond, Bool.and_eq_true, isContinuation_iff, ← UInt8.toNat_inj, UInt8.le_iff_toNat_le,
    UInt8.lt_iff_toNat_lt, UInt8.toNat_ofNat, Nat.reducePow, Nat.reduceMod]
  split_ifs
  all_goals
    simp only [decide_eq_true_eq, and_true]
    omega

theorem tailLength?_iff {lead : UInt8} {n : Nat} : tailLength? lead = some n ↔
    (n = 0 ∧ lead.toNat < 0x80) ∨ (n = 1 ∧ 0xC2 ≤ lead.toNat ∧ lead.toNat < 0xE0) ∨
      (n = 2 ∧ 0xE0 ≤ lead.toNat ∧ lead.toNat < 0xF0) ∨ (n = 3 ∧ 0xF0 ≤ lead.toNat ∧ lead.toNat < 0xF5) := by
  simp only [tailLength?, UInt8.lt_iff_toNat_lt, UInt8.toNat_ofNat, Nat.reducePow, Nat.reduceMod]
  split_ifs
  all_goals
    simp
    omega

/-- The forms of a sequence. -/
theorem sequence_iff {lead : UInt8} {tail : Bytes} : Sequence lead tail ↔
    (tail = [] ∧ lead.toNat < 0x80) ∨
    (∃ b, tail = [b] ∧ (0xC2 ≤ lead.toNat ∧ lead.toNat < 0xE0) ∧ isSecond lead b = true) ∨
    (∃ b c, tail = [b, c] ∧ (0xE0 ≤ lead.toNat ∧ lead.toNat < 0xF0) ∧ isSecond lead b = true ∧
      isContinuation c = true) ∨
    ∃ b c d, tail = [b, c, d] ∧ (0xF0 ≤ lead.toNat ∧ lead.toNat < 0xF5) ∧ isSecond lead b = true ∧
      isContinuation c = true ∧ isContinuation d = true := by
  constructor
  · rintro ⟨hlength, hcontinues⟩
    rcases tailLength?_iff.1 hlength with ⟨hn, hlead⟩ | ⟨hn, hlead⟩ | ⟨hn, hlead⟩ | ⟨hn, hlead⟩
    · exact .inl ⟨List.length_eq_zero_iff.1 hn, hlead⟩
    · obtain ⟨b, rfl⟩ := List.length_eq_one_iff.1 hn
      exact .inr (.inl ⟨b, rfl, hlead, hcontinues.1⟩)
    · obtain ⟨b, c, rfl⟩ := List.length_eq_two.1 hn
      exact .inr (.inr (.inl ⟨b, c, rfl, hlead, hcontinues.1, hcontinues.2 c (by simp)⟩))
    · obtain ⟨b, c, d, rfl⟩ := List.length_eq_three.1 hn
      exact .inr (.inr (.inr ⟨b, c, d, rfl, hlead, hcontinues.1, hcontinues.2 c (by simp), hcontinues.2 d (by simp)⟩))
  · rintro (⟨rfl, hlead⟩ | ⟨b, rfl, hlead, hb⟩ | ⟨b, c, rfl, hlead, hb, hc⟩ | ⟨b, c, d, rfl, hlead, hb, hc, hd⟩)
    · exact ⟨tailLength?_iff.2 (.inl ⟨rfl, hlead⟩), trivial⟩
    · exact ⟨tailLength?_iff.2 (.inr (.inl ⟨rfl, hlead⟩)), hb, by simp⟩
    · exact ⟨tailLength?_iff.2 (.inr (.inr (.inl ⟨rfl, hlead⟩))), hb, by simpa using hc⟩
    · exact ⟨tailLength?_iff.2 (.inr (.inr (.inr ⟨rfl, hlead⟩))), hb, by simpa using ⟨hc, hd⟩⟩

/-! ### Characters -/

theorem toNat_val_ofNat {n : Nat} (h : n.isValidChar) : (Char.ofNat n).val.toNat = n := by
  rw [Char.ofNat, dif_pos h]
  rfl

theorem ofNat_eq {n : Nat} {b : UInt8} (h : n = b.toNat) : UInt8.ofNat n = b := by
  rw [h, UInt8.ofNat_toNat]

/-- A sequence is the encoding of its character. -/
theorem Sequence.encode_charOf {lead : UInt8} {tail : Bytes} (h : Sequence lead tail) :
    String.utf8EncodeChar (charOf lead tail) = lead :: tail := by
  rcases sequence_iff.1 h with ⟨rfl, hlead⟩ | ⟨b, rfl, hlead, hb⟩ | ⟨b, c, rfl, hlead, hb, hc⟩ |
    ⟨b, c, d, rfl, hlead, hb, hc, hd⟩
  · have hvalid : lead.toNat.isValidChar := by
      unfold Nat.isValidChar
      omega
    have hval : (charOf lead []).val.toNat = lead.toNat := toNat_val_ofNat hvalid
    rw [String.utf8EncodeChar]
    simp only [hval]
    rw [if_pos (by omega), ofNat_eq rfl]
  · rw [isSecond_iff] at hb
    have hvalid : (lead.toNat % 32 * 64 + b.toNat % 64).isValidChar := by
      unfold Nat.isValidChar
      omega
    have hval : (charOf lead [b]).val.toNat = lead.toNat % 32 * 64 + b.toNat % 64 := toNat_val_ofNat hvalid
    rw [String.utf8EncodeChar]
    simp only [hval]
    rw [if_neg (by omega), if_pos (by omega), @ofNat_eq _ lead (by omega), @ofNat_eq _ b (by omega)]
  · rw [isSecond_iff] at hb
    rw [isContinuation_iff] at hc
    have hvalid : ((lead.toNat % 16 * 64 + b.toNat % 64) * 64 + c.toNat % 64).isValidChar := by
      unfold Nat.isValidChar
      omega
    have hval : (charOf lead [b, c]).val.toNat = (lead.toNat % 16 * 64 + b.toNat % 64) * 64 + c.toNat % 64 :=
      toNat_val_ofNat hvalid
    rw [String.utf8EncodeChar]
    simp only [hval]
    rw [if_neg (by omega), if_neg (by omega), if_pos (by omega), @ofNat_eq _ lead (by omega), @ofNat_eq _ b (by omega),
      @ofNat_eq _ c (by omega)]
  · rw [isSecond_iff] at hb
    rw [isContinuation_iff] at hc hd
    have hvalid : (((lead.toNat % 8 * 64 + b.toNat % 64) * 64 + c.toNat % 64) * 64 + d.toNat % 64).isValidChar := by
      unfold Nat.isValidChar
      omega
    have hval : (charOf lead [b, c, d]).val.toNat =
        ((lead.toNat % 8 * 64 + b.toNat % 64) * 64 + c.toNat % 64) * 64 + d.toNat % 64 := toNat_val_ofNat hvalid
    rw [String.utf8EncodeChar]
    simp only [hval]
    rw [if_neg (by omega), if_neg (by omega), if_neg (by omega), @ofNat_eq _ lead (by omega), @ofNat_eq _ b (by omega),
      @ofNat_eq _ c (by omega), @ofNat_eq _ d (by omega)]

theorem utf8EncodeChar_injective {c d : Char} (h : String.utf8EncodeChar c = String.utf8EncodeChar d) : c = d := by
  have hc := @ByteArray.utf8DecodeChar?_utf8EncodeChar_append .empty c
  rw [h, ByteArray.utf8DecodeChar?_utf8EncodeChar_append] at hc
  exact (Option.some.inj hc).symm

/-- A character is encoded as one sequence. -/
theorem exists_sequence (c : Char) : ∃ lead tail, String.utf8EncodeChar c = lead :: tail ∧ Sequence lead tail := by
  have hvalid : c.val.toNat < 0xD800 ∨ 0xDFFF < c.val.toNat ∧ c.val.toNat < 0x110000 := c.valid
  have hbyte : ∀ n : Nat, (UInt8.ofNat n).toNat = n % 256 := fun n => UInt8.toNat_ofNat'
  rw [String.utf8EncodeChar]
  generalize c.val.toNat = v at hvalid ⊢
  split
  · refine ⟨_, _, rfl, sequence_iff.2 (.inl ⟨rfl, ?_⟩)⟩
    rw [hbyte]
    omega
  · split
    · refine ⟨_, _, rfl, sequence_iff.2 (.inr (.inl ⟨_, rfl, ?_, isSecond_iff.2 ?_⟩))⟩
      all_goals
        simp only [hbyte]
        omega
    · split
      · refine ⟨_, _, rfl, sequence_iff.2 (.inr (.inr (.inl ⟨_, _, rfl, ?_, isSecond_iff.2 ?_,
          isContinuation_iff.2 ?_⟩)))⟩
        all_goals
          simp only [hbyte]
          omega
      · refine ⟨_, _, rfl, sequence_iff.2 (.inr (.inr (.inr ⟨_, _, _, rfl, ?_, isSecond_iff.2 ?_,
          isContinuation_iff.2 ?_, isContinuation_iff.2 ?_⟩)))⟩
        all_goals
          simp only [hbyte]
          omega

/-! ### Texts -/

theorem takeTail_append {ok : UInt8 → Bool} {tail : Bytes} (h : Continues ok tail) (rest : Bytes) :
    takeTail ok tail.length (tail ++ rest) = (tail, rest) := by
  induction tail generalizing ok with
  | nil => rfl
  | cons b tail ih =>
      have hrest : Continues isContinuation tail := by
        cases tail with
        | nil => trivial
        | cons c tail => exact List.forall_mem_cons.1 h.2
      rw [List.length_cons, List.cons_append, takeTail, if_pos h.1, ih hrest]

theorem takeTail_spec (ok : UInt8 → Bool) (n : Nat) (bytes : Bytes) :
    bytes = (takeTail ok n bytes).1 ++ (takeTail ok n bytes).2 ∧ Continues ok (takeTail ok n bytes).1 := by
  induction n generalizing ok bytes with
  | zero => exact ⟨rfl, trivial⟩
  | succ n ih =>
      cases bytes with
      | nil => exact ⟨rfl, trivial⟩
      | cons b bytes =>
          rw [takeTail]
          split
          · next hb =>
              obtain ⟨hsplit, hcontinues⟩ := ih isContinuation bytes
              refine ⟨congrArg (b :: ·) hsplit, hb, ?_⟩
              generalize (takeTail isContinuation n bytes).1 = tail at hcontinues
              cases tail with
              | nil => simp
              | cons c tail => exact List.forall_mem_cons.2 hcontinues
          · exact ⟨rfl, trivial⟩

/-- A sequence in front is decoded as its character. -/
theorem decodeFrom_sequence {lead : UInt8} {tail : Bytes} (h : Sequence lead tail) (position : Nat) (reversed : Text)
    (rest : Bytes) :
    decodeFrom position reversed (lead :: (tail ++ rest)) =
      decodeFrom (position + 1 + tail.length) (charOf lead tail :: reversed) rest := by
  rw [decodeFrom, h.length]
  simp only [takeTail_append h.continues rest, if_true]

/-- Bytes that are decoded start with a sequence. -/
theorem exists_sequence_of_decodeFrom {position : Nat} {reversed t : Text} {lead : UInt8} {bytes : Bytes}
    (h : decodeFrom position reversed (lead :: bytes) = .ok t) :
    ∃ tail rest, bytes = tail ++ rest ∧ Sequence lead tail := by
  rw [decodeFrom] at h
  split at h
  · cases h
  · next n hn =>
      dsimp only at h
      split at h
      · next hlength =>
          obtain ⟨hsplit, hcontinues⟩ := takeTail_spec (isSecond lead) n bytes
          exact ⟨_, _, hsplit, hn.trans (congrArg some hlength.symm), hcontinues⟩
      · cases h

theorem encode_cons (c : Char) (t : Text) : encode (c :: t) = String.utf8EncodeChar c ++ encode t := List.flatMap_cons

theorem decodeFrom_encode (position : Nat) (reversed t : Text) :
    decodeFrom position reversed (encode t) = .ok (reversed.reverse ++ t) := by
  induction t generalizing position reversed with
  | nil =>
      rw [List.append_nil]
      exact decodeFrom.eq_1 position reversed
  | cons c t ih =>
      obtain ⟨lead, tail, hencode, hsequence⟩ := exists_sequence c
      have hchar : charOf lead tail = c := utf8EncodeChar_injective (hsequence.encode_charOf.trans hencode.symm)
      rw [encode_cons, hencode, List.cons_append, decodeFrom_sequence hsequence, ih, hchar]
      simp

theorem encode_of_decodeFrom {position : Nat} {reversed t : Text} {bytes : Bytes}
    (h : decodeFrom position reversed bytes = .ok t) : ∃ t', t = reversed.reverse ++ t' ∧ bytes = encode t' := by
  -- by induction on the number of bytes: a sequence is taken off in front, and what is left is shorter
  induction hn : bytes.length using Nat.strongRecOn generalizing position reversed bytes with
  | _ n ih =>
      cases bytes with
      | nil =>
          rw [decodeFrom] at h
          cases h
          exact ⟨[], (List.append_nil _).symm, rfl⟩
      | cons lead bytes =>
          obtain ⟨tail, rest, rfl, hsequence⟩ := exists_sequence_of_decodeFrom h
          rw [decodeFrom_sequence hsequence] at h
          obtain ⟨t', ht, hrest⟩ := ih rest.length (by simp at hn; omega) h rfl
          refine ⟨charOf lead tail :: t', by simp [ht], ?_⟩
          rw [encode_cons, hsequence.encode_charOf, hrest, List.cons_append]

/-- Bytes are read as a text if they are its encoding, and otherwise not. -/
theorem decode_eq_ok_iff {bytes : Bytes} {t : Text} : decode bytes = .ok t ↔ bytes = encode t := by
  constructor
  · intro h
    obtain ⟨t', rfl, hbytes⟩ := encode_of_decodeFrom h
    exact hbytes
  · rintro rfl
    exact decodeFrom_encode 0 [] t

theorem encode_injective {t t' : Text} (h : encode t = encode t') : t = t' := by
  have hdecode := decode_eq_ok_iff.2 h
  rw [decode_eq_ok_iff.2 rfl] at hdecode
  exact Except.ok.inj hdecode

end XmlTidy.Utf8
