import Vendoring.Text.Utf8

/-!
# Bytes that are text

Decoding accepts just the bytes that texts are encoded as, and gives the text that they encode. For
a character of which the first bytes have been read this says that whatever the bounds let follow
completes the encoding of the character that is decoded.
-/

namespace Vendoring.Text.Utf8

/-- Bytes encode some text. -/
def IsText (bytes : List UInt8) : Prop := ∃ text, encode text = bytes

/-! ### Characters from their bytes -/

private theorem toNat_ofNat {n : Nat} (h : n.isValidChar) : (Char.ofNat n).val.toNat = n := by
  rw [Char.ofNat, dif_pos h]
  rfl

private theorem ofNat_eq {b : UInt8} {n : Nat} (h : n = b.toNat) : UInt8.ofNat n = b := by
  rw [h, UInt8.ofNat_toNat]

private theorem utf8EncodeChar_one {a : UInt8} (ha : a.toNat < 128) :
    String.utf8EncodeChar (Char.ofNat a.toNat) = [a] := by
  rw [String.utf8EncodeChar.eq_1, toNat_ofNat (.inl (by omega)), if_pos (by omega),
    UInt8.ofNat_toNat]

private theorem utf8EncodeChar_two {a b : UInt8} (ha : 194 ≤ a.toNat ∧ a.toNat < 224)
    (hb : 128 ≤ b.toNat ∧ b.toNat ≤ 191) :
    String.utf8EncodeChar (Char.ofNat ((a.toNat - 192) * 64 + (b.toNat - 128))) = [a, b] := by
  rw [String.utf8EncodeChar.eq_1, toNat_ofNat (.inl (by omega)), if_neg (by omega),
    if_pos (by omega), ofNat_eq (b := a) (by omega), ofNat_eq (b := b) (by omega)]

private theorem utf8EncodeChar_three {a b c : UInt8} (ha : 224 ≤ a.toNat ∧ a.toNat < 240)
    (hb : 128 ≤ b.toNat ∧ b.toNat ≤ 191) (hlow : a.toNat = 224 → 160 ≤ b.toNat)
    (hhigh : a.toNat = 237 → b.toNat ≤ 159) (hc : 128 ≤ c.toNat ∧ c.toNat ≤ 191) :
    String.utf8EncodeChar (Char.ofNat
      (((a.toNat - 224) * 64 + (b.toNat - 128)) * 64 + (c.toNat - 128))) = [a, b, c] := by
  have hvalid : (((a.toNat - 224) * 64 + (b.toNat - 128)) * 64 + (c.toNat - 128)).isValidChar := by
    show _ ∨ _
    omega
  rw [String.utf8EncodeChar.eq_1, toNat_ofNat hvalid, if_neg (by omega), if_neg (by omega),
    if_pos (by omega), ofNat_eq (b := a) (by omega), ofNat_eq (b := b) (by omega),
    ofNat_eq (b := c) (by omega)]

private theorem utf8EncodeChar_four {a b c d : UInt8} (ha : 240 ≤ a.toNat ∧ a.toNat < 245)
    (hb : 128 ≤ b.toNat ∧ b.toNat ≤ 191) (hlow : a.toNat = 240 → 144 ≤ b.toNat)
    (hhigh : a.toNat = 244 → b.toNat ≤ 143) (hc : 128 ≤ c.toNat ∧ c.toNat ≤ 191)
    (hd : 128 ≤ d.toNat ∧ d.toNat ≤ 191) :
    String.utf8EncodeChar (Char.ofNat
      ((((a.toNat - 240) * 64 + (b.toNat - 128)) * 64 + (c.toNat - 128)) * 64 +
        (d.toNat - 128))) = [a, b, c, d] := by
  have hvalid : ((((a.toNat - 240) * 64 + (b.toNat - 128)) * 64 + (c.toNat - 128)) * 64 +
      (d.toNat - 128)).isValidChar := .inr (by omega)
  rw [String.utf8EncodeChar.eq_1, toNat_ofNat hvalid, if_neg (by omega), if_neg (by omega),
    if_neg (by omega), ofNat_eq (b := a) (by omega), ofNat_eq (b := b) (by omega),
    ofNat_eq (b := c) (by omega), ofNat_eq (b := d) (by omega)]

/-! ### Reading on -/

/-- After some bytes of a character, with a number of bytes to come after the next one, every next
byte within bounds leads on to the encoding of the character that the bits stand for. -/
def CompletesWith (read : List UInt8) (low high : UInt8) (value : Nat) : Nat → Prop
  | 0 => ∀ b : UInt8, low ≤ b → b ≤ high →
    String.utf8EncodeChar (Char.ofNat (value * 64 + (b.toNat - 0x80))) = read ++ [b]
  | after + 1 => ∀ b : UInt8, low ≤ b → b ≤ high →
    CompletesWith (read ++ [b]) 0x80 0xBF (value * 64 + (b.toNat - 0x80)) after

/-- Whatever may follow the bytes read of a character completes its encoding. -/
def Pending.Completes (p : Pending) : Prop := CompletesWith p.read p.low p.high p.value p.after

private theorem bounds_toNat {low high b : UInt8} (hlow : low ≤ b) (hhigh : b ≤ high) :
    low.toNat ≤ b.toNat ∧ b.toNat ≤ high.toNat :=
  ⟨UInt8.le_iff_toNat_le.mp hlow, UInt8.le_iff_toNat_le.mp hhigh⟩

/-- A second byte is a continuation byte, within narrower bounds after two of the first bytes. -/
private theorem bounds_second {a b x y low high : UInt8} (hlow' : 128 ≤ low.toNat)
    (hhigh' : high.toNat ≤ 191) (hlow : (if a = x then low else 0x80) ≤ b)
    (hhigh : b ≤ if a = y then high else 0xBF) :
    (128 ≤ b.toNat ∧ b.toNat ≤ 191) ∧ (a.toNat = x.toNat → low.toNat ≤ b.toNat) ∧
      (a.toNat = y.toNat → b.toNat ≤ high.toNat) := by
  rw [UInt8.toNat_inj, UInt8.toNat_inj]
  obtain ⟨hleast, hgreatest⟩ := bounds_toNat hlow hhigh
  refine ⟨⟨?_, ?_⟩, ?_, ?_⟩
  · split at hleast
    · exact Nat.le_trans hlow' hleast
    · exact hleast
  · split at hgreatest
    · exact Nat.le_trans hgreatest hhigh'
    · exact hgreatest
  · intro hx
    rwa [if_pos hx] at hleast
  · intro hy
    rwa [if_pos hy] at hgreatest

/-- Whatever the first byte of a character lets follow completes an encoding. -/
theorem completes_of_lead? {position : Nat} {a : UInt8} {p : Pending}
    (h : lead? position a = some p) : p.Completes := by
  unfold lead? at h
  simp only [UInt8.lt_iff_toNat_lt] at h
  split at h
  · cases h
  next hone =>
  split at h
  · next htwo =>
    cases h
    intro b hlow hhigh
    exact utf8EncodeChar_two ⟨Nat.le_of_not_lt hone, htwo⟩ (bounds_toNat hlow hhigh)
  next htwo =>
  split at h
  · next hthree =>
    cases h
    intro b hlow hhigh c hlow' hhigh'
    obtain ⟨hb, hfirst, hlast⟩ := bounds_second (by decide) (by decide) hlow hhigh
    exact utf8EncodeChar_three ⟨Nat.le_of_not_lt htwo, hthree⟩ hb hfirst hlast
      (bounds_toNat hlow' hhigh')
  next hthree =>
  split at h
  · next hfour =>
    cases h
    intro b hlow hhigh c hlow' hhigh' d hlow'' hhigh''
    obtain ⟨hb, hfirst, hlast⟩ := bounds_second (by decide) (by decide) hlow hhigh
    exact utf8EncodeChar_four ⟨Nat.le_of_not_lt hthree, hfour⟩ hb hfirst hlast
      (bounds_toNat hlow' hhigh') (bounds_toNat hlow'' hhigh'')
  · cases h

/-- The first byte of a character is none that it can be completed with. -/
private theorem lead?_read {position : Nat} {a : UInt8} {p : Pending}
    (h : lead? position a = some p) : p.read = [a] := by
  unfold lead? at h
  split at h
  · cases h
  split at h
  · cases h
    rfl
  split at h
  · cases h
    rfl
  split at h
  · cases h
    rfl
  · cases h

private theorem map_eq_ok {α β ε : Type} {f : α → β} {r : Except ε α} {y : β} :
    f <$> r = .ok y ↔ ∃ x, r = .ok x ∧ f x = y := by
  cases r <;> simp [Functor.map, Except.map]

/-- The bytes read of a character and those after them encode the characters that are decoded. -/
theorem flatMap_of_decodeFrom {position : Nat} {pending : Option Pending} {bytes : List UInt8}
    {cs : List Char} (hpending : ∀ p ∈ pending, p.Completes)
    (h : decodeFrom position pending bytes = .ok cs) :
    cs.flatMap String.utf8EncodeChar = (pending.map Pending.read).getD [] ++ bytes := by
  have hnone : ∀ p ∈ (none : Option Pending), p.Completes := by simp
  fun_induction decodeFrom position pending bytes generalizing cs with
  | case1 =>
      cases h
      rfl
  | case2 => cases h
  | case3 position b rest hascii ih =>
      obtain ⟨later, hlater, rfl⟩ := map_eq_ok.mp h
      rw [List.flatMap_cons, ih hnone hlater, utf8EncodeChar_one (UInt8.lt_iff_toNat_lt.mp hascii)]
      rfl
  | case4 => cases h
  | case5 position b rest hascii p hlead ih =>
      have hp : ∀ q ∈ some p, q.Completes := by
        rintro _ ⟨⟩
        exact completes_of_lead? hlead
      rw [ih hp h, Option.map_some, Option.getD_some, lead?_read hlead]
      rfl
  | case6 position p b rest hbounds value hafter =>
      rename_i ih
      obtain ⟨later, hlater, rfl⟩ := map_eq_ok.mp h
      have hp : p.Completes := hpending p rfl
      rw [Pending.Completes, hafter] at hp
      rw [List.flatMap_cons, ih hnone hlater, hp b hbounds.1 hbounds.2]
      simp
  | case7 position p b rest hbounds value after hafter =>
      rename_i ih
      have hp : p.Completes := hpending p rfl
      rw [Pending.Completes, hafter] at hp
      rw [ih (by rintro _ ⟨⟩; exact hp b hbounds.1 hbounds.2) h]
      simp
  | case8 => cases h

/-- Bytes are decoded as a text exactly when they are its encoding. -/
theorem decode_eq_ok_iff {bytes : List UInt8} {text : String} :
    decode bytes = .ok text ↔ encode text = bytes := by
  constructor
  · intro h
    obtain ⟨cs, hcs, rfl⟩ := map_eq_ok.mp h
    rw [encode, String.toList_ofList, flatMap_of_decodeFrom (by simp) hcs]
    rfl
  · rintro rfl
    exact decode_encode text

/-- Bytes are text exactly when they can be decoded. -/
theorem isText_iff {bytes : List UInt8} : IsText bytes ↔ ∃ text, decode bytes = .ok text := by
  simp only [IsText, decode_eq_ok_iff]

/-- A text has at least as many bytes as characters. -/
theorem length_le_length_encode (s : String) : s.length ≤ (encode s).length := by
  rw [← String.length_toList, encode]
  induction s.toList with
  | nil => exact Nat.zero_le _
  | cons c cs ih =>
      have hchar : 0 < (String.utf8EncodeChar c).length := by
        rw [String.length_utf8EncodeChar]
        exact c.utf8Size_pos
      rw [List.flatMap_cons, List.length_append, List.length_cons]
      omega

end Vendoring.Text.Utf8
