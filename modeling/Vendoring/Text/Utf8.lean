import Vendoring.Text.Hex

/-!
# Text as UTF-8 bytes

`encode` writes a text as bytes; `decode` reads bytes strictly: overlong forms, surrogates, code
points beyond U+10FFFF and truncated characters are refused, and the diagnostic names the offset of
the faulty sequence. What `encode` writes, `decode` reads back.
-/

namespace Vendoring.Text.Utf8

/-- The bytes of a text. -/
def encode (s : String) : List UInt8 :=
  s.toList.flatMap String.utf8EncodeChar

/-- What is wrong with a byte sequence. -/
inductive Fault where
  /-- No character starts with this byte. -/
  | invalidStart
  /-- The bytes read so far cannot be continued by the next one. -/
  | invalidContinuation
  /-- The input ends within a character. -/
  | unexpectedEnd
  deriving DecidableEq, Repr

/-- A fault, the offset where the faulty sequence starts, and its bytes. -/
structure DecodeError where
  fault : Fault
  position : Nat
  bytes : List UInt8
  deriving DecidableEq, Repr

/-- The wording of a fault. -/
def Fault.message : Fault → String
  | .invalidStart => "invalid start byte"
  | .invalidContinuation => "invalid continuation byte"
  | .unexpectedEnd => "unexpected end of data"

/-- The diagnostic shows a single faulty byte, and of several only where they stand. -/
def DecodeError.message (e : DecodeError) : String :=
  let place := match e.bytes with
    | [b] => "byte 0x" ++ String.ofList (hexByte b) ++ " in position " ++ toString e.position
    | bs => "bytes in position " ++ toString e.position ++ "-" ++
        toString (e.position + bs.length - 1)
  "'utf-8' codec can't decode " ++ place ++ ": " ++ e.fault.message

/-- A character of which the first bytes have been read. -/
structure Pending where
  /-- The offset of the first byte. -/
  start : Nat
  /-- The bytes read so far. -/
  read : List UInt8
  /-- How many bytes follow the next one. -/
  after : Nat
  /-- The least next byte. -/
  low : UInt8
  /-- The greatest next byte. -/
  high : UInt8
  /-- The bits read so far. -/
  value : Nat
  deriving DecidableEq, Repr

/-- What the first byte of a longer character announces. The bounds on the second byte exclude
overlong forms, surrogates and code points beyond U+10FFFF. -/
def lead? (position : Nat) (b : UInt8) : Option Pending :=
  if b < 0xC2 then none
  else if b < 0xE0 then some ⟨position, [b], 0, 0x80, 0xBF, b.toNat - 0xC0⟩
  else if b < 0xF0 then
    some ⟨position, [b], 1, if b = 0xE0 then 0xA0 else 0x80, if b = 0xED then 0x9F else 0xBF,
      b.toNat - 0xE0⟩
  else if b < 0xF5 then
    some ⟨position, [b], 2, if b = 0xF0 then 0x90 else 0x80, if b = 0xF4 then 0x8F else 0xBF,
      b.toNat - 0xF0⟩
  else none

/-- Decode from an offset, within a character or between two. -/
def decodeFrom (position : Nat) : Option Pending → List UInt8 → Except DecodeError (List Char)
  | none, [] => .ok []
  | some p, [] => .error ⟨.unexpectedEnd, p.start, p.read⟩
  | none, b :: rest =>
    if b < 0x80 then (Char.ofNat b.toNat :: ·) <$> decodeFrom (position + 1) none rest
    else match lead? position b with
      | none => .error ⟨.invalidStart, position, [b]⟩
      | some p => decodeFrom (position + 1) (some p) rest
  | some p, b :: rest =>
    if p.low ≤ b ∧ b ≤ p.high then
      let value := p.value * 64 + (b.toNat - 0x80)
      match p.after with
      | 0 => (Char.ofNat value :: ·) <$> decodeFrom (position + 1) none rest
      | after + 1 =>
        decodeFrom (position + 1) (some ⟨p.start, p.read ++ [b], after, 0x80, 0xBF, value⟩) rest
    else .error ⟨.invalidContinuation, p.start, p.read⟩

/-- The text that bytes stand for, or the first fault in them. -/
def decode (bytes : List UInt8) : Except DecodeError String :=
  String.ofList <$> decodeFrom 0 none bytes

/-- A byte after the first carries six bits. -/
theorem toNat_continuation (n : Nat) : (UInt8.ofNat (n % 64 + 128)).toNat = n % 64 + 128 :=
  UInt8.toNat_ofNat_of_lt' (by show n % 64 + 128 < 256; omega)

/-- The last byte of a character completes it. -/
theorem decodeFrom_last {pos start n v w : Nat} {read : List UInt8} {low high : UInt8}
    {rest : List UInt8} (hl : low.toNat ≤ n % 64 + 128) (hh : n % 64 + 128 ≤ high.toNat)
    (hw : v * 64 + n % 64 = w) :
    decodeFrom pos (some ⟨start, read, 0, low, high, v⟩) (UInt8.ofNat (n % 64 + 128) :: rest) =
      (Char.ofNat w :: ·) <$> decodeFrom (pos + 1) none rest := by
  rw [decodeFrom, if_pos]
  · simp only [toNat_continuation, Nat.add_sub_cancel, hw]
  · simpa only [UInt8.le_iff_toNat_le, toNat_continuation] using ⟨hl, hh⟩

/-- A byte in the middle of a character extends what has been read of it. -/
theorem decodeFrom_middle {pos start after n v : Nat} {read : List UInt8} {low high : UInt8}
    {rest : List UInt8} (hl : low.toNat ≤ n % 64 + 128) (hh : n % 64 + 128 ≤ high.toNat) :
    decodeFrom pos (some ⟨start, read, after + 1, low, high, v⟩)
        (UInt8.ofNat (n % 64 + 128) :: rest) =
      decodeFrom (pos + 1) (some ⟨start, read ++ [UInt8.ofNat (n % 64 + 128)], after, 0x80, 0xBF,
        v * 64 + n % 64⟩) rest := by
  rw [decodeFrom, if_pos]
  · simp only [toNat_continuation, Nat.add_sub_cancel]
  · simpa only [UInt8.le_iff_toNat_le, toNat_continuation] using ⟨hl, hh⟩

/-- The first byte of a longer character announces it. -/
theorem decodeFrom_lead {pos : Nat} {b : UInt8} {p : Pending} {rest : List UInt8}
    (h : lead? pos b = some p) :
    decodeFrom pos none (b :: rest) = decodeFrom (pos + 1) (some p) rest := by
  rw [decodeFrom, if_neg, h]
  intro hb
  have hb : b < 0xC2 := UInt8.lt_trans hb (by decide)
  simp [lead?, hb] at h

/-- The first byte of a character of two bytes carries five bits, of which the upper four are not
all zero. -/
theorem lead?_two {pos n : Nat} (h : 2 ≤ n) (h' : n < 32) :
    lead? pos (UInt8.ofNat (n + 192)) =
      some ⟨pos, [UInt8.ofNat (n + 192)], 0, 0x80, 0xBF, n⟩ := by
  have hb : (UInt8.ofNat (n + 192)).toNat = n + 192 :=
    UInt8.toNat_ofNat_of_lt' (by show n + 192 < 256; omega)
  generalize UInt8.ofNat (n + 192) = b at hb ⊢
  have h₁ : ¬ b < 0xC2 := by rw [UInt8.lt_iff_toNat_lt, hb]; show ¬ n + 192 < 194; omega
  have h₂ : b < 0xE0 := by rw [UInt8.lt_iff_toNat_lt, hb]; show n + 192 < 224; omega
  simp [lead?, h₁, h₂, hb]

/-- The first byte of a character of three bytes carries four bits. -/
theorem lead?_three {pos n : Nat} (h : n < 16) :
    lead? pos (UInt8.ofNat (n + 224)) =
      some ⟨pos, [UInt8.ofNat (n + 224)], 1, if n = 0 then 0xA0 else 0x80,
        if n = 13 then 0x9F else 0xBF, n⟩ := by
  have hb : (UInt8.ofNat (n + 224)).toNat = n + 224 :=
    UInt8.toNat_ofNat_of_lt' (by show n + 224 < 256; omega)
  generalize UInt8.ofNat (n + 224) = b at hb ⊢
  have h₁ : ¬ b < 0xC2 := by rw [UInt8.lt_iff_toNat_lt, hb]; show ¬ n + 224 < 194; omega
  have h₂ : ¬ b < 0xE0 := by rw [UInt8.lt_iff_toNat_lt, hb]; show ¬ n + 224 < 224; omega
  have h₃ : b < 0xF0 := by rw [UInt8.lt_iff_toNat_lt, hb]; show n + 224 < 240; omega
  have h₄ : b = 0xE0 ↔ n = 0 := by rw [← UInt8.toNat_inj, hb]; show n + 224 = 224 ↔ _; omega
  have h₅ : b = 0xED ↔ n = 13 := by rw [← UInt8.toNat_inj, hb]; show n + 224 = 237 ↔ _; omega
  simp [lead?, h₁, h₂, h₃, h₄, h₅, hb]

/-- The first byte of a character of four bytes carries three bits. -/
theorem lead?_four {pos n : Nat} (h : n < 5) :
    lead? pos (UInt8.ofNat (n + 240)) =
      some ⟨pos, [UInt8.ofNat (n + 240)], 2, if n = 0 then 0x90 else 0x80,
        if n = 4 then 0x8F else 0xBF, n⟩ := by
  have hb : (UInt8.ofNat (n + 240)).toNat = n + 240 :=
    UInt8.toNat_ofNat_of_lt' (by show n + 240 < 256; omega)
  generalize UInt8.ofNat (n + 240) = b at hb ⊢
  have h₁ : ¬ b < 0xC2 := by rw [UInt8.lt_iff_toNat_lt, hb]; show ¬ n + 240 < 194; omega
  have h₂ : ¬ b < 0xE0 := by rw [UInt8.lt_iff_toNat_lt, hb]; show ¬ n + 240 < 224; omega
  have h₃ : ¬ b < 0xF0 := by rw [UInt8.lt_iff_toNat_lt, hb]; show ¬ n + 240 < 240; omega
  have h₄ : b < 0xF5 := by rw [UInt8.lt_iff_toNat_lt, hb]; show n + 240 < 245; omega
  have h₅ : b = 0xF0 ↔ n = 0 := by rw [← UInt8.toNat_inj, hb]; show n + 240 = 240 ↔ _; omega
  have h₆ : b = 0xF4 ↔ n = 4 := by rw [← UInt8.toNat_inj, hb]; show n + 240 = 244 ↔ _; omega
  simp [lead?, h₁, h₂, h₃, h₄, h₅, h₆, hb]

/-- Decoding the bytes of a character gives the character and goes on after them. -/
theorem decodeFrom_utf8EncodeChar (pos : Nat) (c : Char) (rest : List UInt8) :
    decodeFrom pos none (String.utf8EncodeChar c ++ rest) =
      (c :: ·) <$> decodeFrom (pos + (String.utf8EncodeChar c).length) none rest := by
  have hv : c.val.toNat < 0xD800 ∨ 0xDFFF < c.val.toNat ∧ c.val.toNat < 0x110000 := c.valid
  have hc : Char.ofNat c.val.toNat = c := Char.ofNat_toNat c
  rw [String.utf8EncodeChar.eq_1]
  generalize c.val.toNat = v at hv hc
  subst hc
  split
  · have hb : (UInt8.ofNat v).toNat = v := UInt8.toNat_ofNat_of_lt' (by show v < 256; omega)
    have hlt : UInt8.ofNat v < 0x80 := by
      rw [UInt8.lt_iff_toNat_lt, hb]; show v < 128; omega
    rw [List.singleton_append, decodeFrom, if_pos hlt, hb]
    rfl
  split
  · rw [List.cons_append, List.singleton_append, decodeFrom_lead (lead?_two (by omega) (by omega)),
      decodeFrom_last (w := v) (by show 128 ≤ _; omega) (by show _ ≤ 191; omega) (by omega)]
    rfl
  split
  · rw [List.cons_append, List.cons_append, List.singleton_append,
      decodeFrom_lead (lead?_three (by omega)),
      decodeFrom_middle (by split <;> simp only [UInt8.reduceToNat] <;> omega)
        (by split <;> simp only [UInt8.reduceToNat] <;> omega),
      decodeFrom_last (w := v) (by show 128 ≤ _; omega) (by show _ ≤ 191; omega) (by omega)]
    rfl
  · rw [List.cons_append, List.cons_append, List.cons_append, List.singleton_append,
      decodeFrom_lead (lead?_four (by omega)),
      decodeFrom_middle (by split <;> simp only [UInt8.reduceToNat] <;> omega)
        (by split <;> simp only [UInt8.reduceToNat] <;> omega),
      decodeFrom_middle (by show 128 ≤ _; omega) (by show _ ≤ 191; omega),
      decodeFrom_last (w := v) (by show 128 ≤ _; omega) (by show _ ≤ 191; omega) (by omega)]
    rfl

/-- Decoding the bytes of a list of characters gives the list. -/
theorem decodeFrom_flatMap (pos : Nat) (cs : List Char) :
    decodeFrom pos none (cs.flatMap String.utf8EncodeChar) = .ok cs := by
  induction cs generalizing pos with
  | nil => rfl
  | cons c cs ih => rw [List.flatMap_cons, decodeFrom_utf8EncodeChar, ih]; rfl

/-- Decoding the bytes of a text gives the text. -/
theorem decode_encode (s : String) : decode (encode s) = .ok s := by
  rw [decode, encode, decodeFrom_flatMap]
  show Except.ok (String.ofList s.toList) = _
  rw [String.ofList_toList]

end Vendoring.Text.Utf8
