import Mathlib.Algebra.Group.Int.Defs
import Mathlib.Data.List.Basic
import Mathlib.Data.List.TakeWhile
import Vendoring.CommandLine.Command
import Vendoring.Proofs.Text.Digits

/-!
# Numerals on a command line

An integer written in decimal digits, after a minus sign if it is negative, is read back, unless the
numeral is longer than any that is read; then it is refused. What a command's options read integers
with belongs to the host, so these are laws that it has to satisfy. By them a command line can ask
for the dump of every seed and count with numerals that are not too long, and of none with more
digits than may be read.
-/

namespace Vendoring

open Vendoring.Text Vendoring.Data Vendoring.CommandLine

/-! ### Digits -/

namespace Text

private theorem wellSpaced_of_digits {cs : List Char} (hdigits : ∀ c ∈ cs, c.isDigit = true)
    {afterDigit : Bool} (hsome : afterDigit = true ∨ cs ≠ []) :
    digitRun.wellSpaced afterDigit cs = true := by
  induction cs generalizing afterDigit with
  | nil => exact hsome.resolve_right fun hne ↦ hne rfl
  | cons c cs ih =>
      have hc : (c == '_') = false := by
        rw [beq_eq_false_iff_ne]
        rintro rfl
        exact absurd (hdigits '_' List.mem_cons_self) (by decide)
      rw [digitRun.wellSpaced, hc]
      exact ih (fun d hd ↦ hdigits d (List.mem_cons_of_mem _ hd)) (.inl rfl)

/-- A run of digits is read to its end. -/
theorem digitRun_of_digits {cs : List Char} (hne : cs ≠ [])
    (hdigits : ∀ c ∈ cs, c.isDigit = true) :
    digitRun asciiDigit? cs = (some (cs.map fun c ↦ c.toNat - '0'.toNat), []) := by
  have hvalue : ∀ c ∈ cs, asciiDigit? c = some (c.toNat - '0'.toNat) :=
    fun c hc ↦ if_pos (hdigits c hc)
  have hall : ∀ c ∈ cs, ((asciiDigit? c).isSome || c == '_') = true := by
    intro c hc
    rw [hvalue c hc]
    rfl
  have htake : cs.takeWhile (fun c ↦ (asciiDigit? c).isSome || c == '_') = cs :=
    List.takeWhile_eq_self_iff.mpr hall
  have hdrop : cs.dropWhile (fun c ↦ (asciiDigit? c).isSome || c == '_') = [] :=
    List.dropWhile_eq_nil_iff.mpr hall
  have hvalues : cs.filterMap asciiDigit? = cs.map fun c ↦ c.toNat - '0'.toNat := by
    rw [← List.filterMap_eq_map]
    exact List.filterMap_congr hvalue
  unfold digitRun
  dsimp only
  rw [htake, hdrop, hvalues, if_pos (wellSpaced_of_digits hdigits (.inr hne))]

/-- A digit is no white space. -/
theorem isWhiteSpace_of_isDigit {c : Char} (hc : c.isDigit = true) : isWhiteSpace c = false := by
  have hrange : 48 ≤ c.toNat ∧ c.toNat ≤ 57 := by
    simpa [Char.isDigit, UInt32.le_iff_toNat_le] using hc
  simp only [isWhiteSpace, Bool.or_eq_false_iff, Bool.and_eq_false_iff, decide_eq_false_iff_not,
    beq_eq_false_iff_ne]
  omega

end Text

/-! ### Integers -/

section Integers

variable {v : Int}

/-- A power of ten has a text longer than its exponent. -/
theorem lt_length_intText_pow {k : Nat} (hk : 0 < k) : k < (intText (10 ^ k)).length := by
  have hdigits : k < (Nat.toDigits 10 (10 ^ k : Int).natAbs).length := by
    rw [← Nat.not_le, Nat.length_toDigits_le_iff (by decide) hk, Int.natAbs_pow]
    exact Nat.lt_irrefl _
  rw [← String.length_toList, toList_intText, List.length_append]
  omega

private theorem isDigit_of_mem {c : Char} {n : Nat} (hc : c ∈ Nat.toDigits 10 n) :
    c.isDigit = true :=
  Nat.isDigit_of_mem_toDigits (by decide) (by decide) hc

/-- There is no white space around the text of an integer. -/
theorem trim_intText (v : Int) : trim isWhiteSpace (intText v).toList = (intText v).toList := by
  have hall : ∀ c ∈ (intText v).toList, isWhiteSpace c = false := by
    intro c hc
    rw [toList_intText] at hc
    obtain hsign | hc := List.mem_append.mp hc
    · split at hsign
      · rw [List.mem_singleton.mp hsign]
        decide
      · cases hsign
    · exact isWhiteSpace_of_isDigit (isDigit_of_mem hc)
  apply trim_eq_self
  · exact fun c hc ↦ hall c (List.mem_of_mem_head? hc)
  · exact fun c hc ↦ hall c (List.mem_of_mem_getLast? hc)

/-- The text of an integer is split into its sign and the digits. -/
theorem splitSign_intText (v : Int) :
    splitSign (intText v).toList = (decide (v < 0), Nat.toDigits 10 v.natAbs) := by
  rw [toList_intText]
  by_cases hv : v < 0
  · rw [if_pos hv, decide_eq_true hv]
    rfl
  · rw [if_neg hv, decide_eq_false hv, List.nil_append]
    obtain ⟨c, rest, hcons⟩ :=
      List.exists_cons_of_ne_nil (Nat.toDigits_ne_nil (b := 10) (n := v.natAbs))
    have hc : c.isDigit = true := isDigit_of_mem (hcons ▸ List.mem_cons_self)
    rw [hcons]
    unfold splitSign
    split
    · next hminus =>
        cases hminus
        cases hc
    · next hplus =>
        cases hplus
        cases hc
    · rfl

/-- An integer in decimal digits is read back. -/
theorem integerText_intText (hlength : (intText v).length ≤ digitLimit) :
    Reader.integerText (intText v) = .valid v := by
  have hshort : ¬ digitLimit < (intText v).toList.length := by
    rw [String.length_toList]
    omega
  unfold Reader.integerText
  dsimp only
  rw [trim_intText, if_neg hshort, splitSign_intText]
  dsimp only
  rw [digitRun_of_digits Nat.toDigits_ne_nil fun c hc ↦ isDigit_of_mem hc]
  dsimp only
  rw [ofDigits_toDigits, signed_natAbs]

/-- An integer is refused when its numeral is too long. -/
theorem integerText_of_long (hlength : digitLimit < (intText v).length) :
    Reader.integerText (intText v) = .fail .oversizedInteger := by
  unfold Reader.integerText
  dsimp only
  rw [trim_intText, if_pos (by rwa [String.length_toList])]

/-- The numeral of an integer has its digits, and a sign at most. -/
theorem length_toDigits_le_length_intText (v : Int) :
    (Nat.toDigits 10 v.natAbs).length ≤ (intText v).length := by
  rw [← String.length_toList, toList_intText, List.length_append]
  exact Nat.le_add_left _ _

end Integers

/-! ### The command -/

namespace CommandLine

/-- The laws of a reader of integers: the numeral of an integer is read as this integer or refused;
it is read if it has no more characters than digits may be read, and refused if it has more digits.
Whether the sign counts is left open. -/
structure ReadsNumerals (integers : String → Checked Int) : Prop where
  reads_or_refuses : ∀ v, integers (intText v) = .valid v ∨
    ∃ issues, integers (intText v) = .invalid issues
  reads : ∀ v, (intText v).length ≤ digitLimit → integers (intText v) = .valid v
  refuses : ∀ v, digitLimit < (Nat.toDigits 10 v.natAbs).length →
    ∃ issues, integers (intText v) = .invalid issues

/-- A reader that counts the sign satisfies the laws. -/
theorem readsNumerals_integerText : ReadsNumerals Reader.integerText where
  reads_or_refuses v := by
    by_cases hlength : (intText v).length ≤ digitLimit
    · exact .inl (integerText_intText hlength)
    · exact .inr ⟨_, integerText_of_long (Nat.lt_of_not_le hlength)⟩
  reads _ := integerText_intText
  refuses v hdigits :=
    ⟨_, integerText_of_long (Nat.lt_of_lt_of_le hdigits (length_toDigits_le_length_intText v))⟩

section
variable {integers : String → Checked Int} {items : List Item} {o : OptionSpec} {v : Int}

private theorem integerValue?_of_valid (hvalue : valueOf? o items = some (intText v))
    (hvalid : integers (intText v) = .valid v) :
    integerValue? integers items o = .ok (some v) := by
  unfold integerValue?
  rw [hvalue]
  dsimp only
  rw [hvalid]

private theorem integerValue?_of_invalid {issues : List Issue}
    (hvalue : valueOf? o items = some (intText v))
    (hinvalid : integers (intText v) = .invalid issues) :
    integerValue? integers items o = .error (.badValue o.names
      ((issues.head?.map Issue.problem).getD .unreadableInteger)) := by
  unfold integerValue?
  rw [hvalue]
  dsimp only
  rw [hinvalid]

end

/-- The words that ask for a dump, with the numerals of the seed and of the count. -/
def dumpWords (v n : Int) : List String := ["rng", "--seed", intText v, "--count", intText n]

/-- What these words mean. -/
def dumpItems (v n : Int) : List Item :=
  [.value Options.seed (intText v), .value Options.count (intText n)]

section
variable {integers : String → Checked Int} {v n : Int}

private theorem read_dumpWords_eq (integers : String → Checked Int) (v n : Int) :
    Command.read integers (dumpWords v n) = (do
      let seed ← integerValue? integers (dumpItems v n) Options.seed
      let count ← integerValue? integers (dumpItems v n) Options.count
      noMoreThan (dumpItems v n) 0
      return Command.rng (seed.getD Entropy.defaultSeed) (count.getD defaultCount)) := by
  have hread : Command.read integers (dumpWords v n) =
      readRng integers ["--seed", intText v, "--count", intText n] := rfl
  have hwords : readWords [Options.seed, Options.count]
      ["--seed", intText v, "--count", intText n] = .ok (dumpItems v n) := rfl
  rw [hread]
  unfold readRng
  rw [hwords]
  rfl

/-- The words for a dump are read as the command for it when both numerals are read. -/
theorem read_dumpWords (hv : integers (intText v) = .valid v)
    (hn : integers (intText n) = .valid n) :
    Command.read integers (dumpWords v n) = .ok (.rng v n) := by
  rw [read_dumpWords_eq, integerValue?_of_valid rfl hv]
  dsimp only [bind, Except.bind]
  rw [integerValue?_of_valid rfl hn]
  rfl

/-- They are refused when the numeral of the seed is. -/
theorem read_dumpWords_of_invalid {issues : List Issue}
    (hv : integers (intText v) = .invalid issues) (n : Int) :
    Command.read integers (dumpWords v n) = .error (.badValue Options.seed.names
      ((issues.head?.map Issue.problem).getD .unreadableInteger)) := by
  rw [read_dumpWords_eq, integerValue?_of_invalid rfl hv]
  rfl

/-- So they are when the numeral of the count is. -/
theorem read_dumpWords_of_valid_invalid {issues : List Issue}
    (hv : integers (intText v) = .valid v) (hn : integers (intText n) = .invalid issues) :
    Command.read integers (dumpWords v n) = .error (.badValue Options.count.names
      ((issues.head?.map Issue.problem).getD .unreadableInteger)) := by
  rw [read_dumpWords_eq, integerValue?_of_valid rfl hv]
  dsimp only [bind, Except.bind]
  rw [integerValue?_of_invalid rfl hn]

/-- With a reader that satisfies the laws, the words are read as the command or refused. -/
theorem ReadsNumerals.read_dumpWords_or (laws : ReadsNumerals integers) (v n : Int) :
    Command.read integers (dumpWords v n) = .ok (.rng v n) ∨
    ∃ e, Command.read integers (dumpWords v n) = .error e := by
  obtain hv | ⟨_, hv⟩ := laws.reads_or_refuses v
  · obtain hn | ⟨_, hn⟩ := laws.reads_or_refuses n
    · exact .inl (read_dumpWords hv hn)
    · exact .inr ⟨_, read_dumpWords_of_valid_invalid hv hn⟩
  · exact .inr ⟨_, read_dumpWords_of_invalid hv n⟩

/-- They are refused when one of the numerals has too many digits. -/
theorem ReadsNumerals.refuses_dumpWords (laws : ReadsNumerals integers)
    (hlong : digitLimit < (Nat.toDigits 10 v.natAbs).length ∨
      digitLimit < (Nat.toDigits 10 n.natAbs).length) :
    ∃ e, Command.read integers (dumpWords v n) = .error e := by
  obtain hv | ⟨_, hv⟩ := laws.reads_or_refuses v
  · obtain hlong | hlong := hlong
    · obtain ⟨_, hrefused⟩ := laws.refuses v hlong
      cases hv.symm.trans hrefused
    · obtain ⟨_, hn⟩ := laws.refuses n hlong
      exact ⟨_, read_dumpWords_of_valid_invalid hv hn⟩
  · exact ⟨_, read_dumpWords_of_invalid hv n⟩

end
end CommandLine
end Vendoring
