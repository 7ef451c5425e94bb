import Vendoring.CommandLine.Run
import Vendoring.Proofs.Entropy.Reseeding
import Vendoring.Proofs.Session.Frames

/-!
# Reading a dump

A line of a dump is split at its blanks into an offset, an empty field and a column for each byte.
Reading the lines of a dump gives the bytes back in rows of sixteen, of which only the last may be
shorter, each with its offset.
-/

namespace Vendoring.CommandLine

open Vendoring.Text

/-- The one byte that a column stands for. -/
def readColumn? (column : List Char) : Option UInt8 :=
  match ofHexChars? column with
  | some [b] => some b
  | _ => none

/-- The offset and the bytes of a line. -/
def readDumpLine? (line : String) : Option (List Char × List UInt8) :=
  match line.toList.splitOn ' ' with
  | offset :: [] :: columns => (columns.mapM readColumn?).map fun row ↦ (offset, row)
  | _ => none

/-- Lines show bytes in rows: no row is empty, every row but the last holds sixteen bytes, and each
follows its offset in lower-case hexadecimal digits, at least eight of them. -/
def Dumps (lines : List String) (bytes : List UInt8) : Prop :=
  ∃ rows : List (List UInt8), rows.flatten = bytes ∧
    (∀ row ∈ rows, row ≠ [] ∧ row.length ≤ 16) ∧
    (∀ row ∈ rows.dropLast, row.length = 16) ∧
    lines.map readDumpLine? = rows.mapIdx fun k row ↦
      some ((Nat.toDigits 16 (16 * k)).leftpad 8 '0', row)

/-! ### One line -/

/-- The line for a row of bytes. -/
def dumpLine (offset : Nat) (row : List UInt8) : String :=
  String.ofList (hexDigits 8 offset) ++ "  " ++
    " ".intercalate (row.map fun b ↦ String.ofList (hexByte b))

private theorem mem_toDigits {c : Char} {n : Nat} (hc : c ∈ Nat.toDigits 16 n) :
    ∃ d < 16, c = d.digitChar := by
  induction n using Nat.strongRecOn with
  | _ n ih =>
      rw [Nat.toDigits_eq_if (by decide)] at hc
      split at hc
      · next hn => exact ⟨n, hn, List.mem_singleton.mp hc⟩
      · next hn =>
          obtain hc | hc := List.mem_append.mp hc
          · exact ih (n / 16) (by omega) hc
          · exact ⟨n % 16, Nat.mod_lt n (by decide), List.mem_singleton.mp hc⟩

private theorem blank_notMem_hexDigits (n : Nat) : ' ' ∉ hexDigits 8 n := by
  have hdigit : ∀ d < 16, ' ' ≠ Nat.digitChar d := by decide
  unfold hexDigits
  rw [List.mem_append]
  rintro (hzero | hc)
  · cases (List.mem_replicate.mp hzero).2
  · obtain ⟨d, hd, hblank⟩ := mem_toDigits hc
    exact hdigit d hd hblank

private theorem blank_notMem_hexByte (b : UInt8) : ' ' ∉ hexByte b := by
  have hdigit : ∀ d < 16, ' ' ≠ hexChar d := by decide
  have hb := b.toNat_lt
  have hhigh := hdigit (b.toNat / 16) (by omega)
  have hlow := hdigit (b.toNat % 16) (by omega)
  simp [hexByte, hhigh, hlow]

private theorem readColumn?_hexByte (b : UInt8) : readColumn? (hexByte b) = some b := by
  have hbytes : (hexBytes [b]).toList = hexByte b := by simp [hexBytes]
  unfold readColumn?
  rw [← hbytes, ofHexChars?_hexBytes]

private theorem mapM_readColumn? (row : List UInt8) :
    (row.map hexByte).mapM readColumn? = some row := by
  induction row with
  | nil => rfl
  | cons b row ih => simp [readColumn?_hexByte, ih]

private theorem toList_dumpLine (offset : Nat) {row : List UInt8} (hrow : row ≠ []) :
    (dumpLine offset row).toList =
      [' '].intercalate (hexDigits 8 offset :: [] :: row.map hexByte) := by
  obtain ⟨b, rest, rfl⟩ := List.exists_cons_of_ne_nil hrow
  have hcolumns : ((b :: rest).map fun b ↦ String.ofList (hexByte b)).map String.toList =
      (b :: rest).map hexByte := by
    simp [Function.comp_def]
  unfold dumpLine
  rw [String.toList_append, String.toList_append, String.toList_intercalate, hcolumns]
  simp [List.intercalate]

/-- The fields of a line are the offset, an empty one and the columns. -/
theorem splitOn_dumpLine (offset : Nat) {row : List UInt8} (hrow : row ≠ []) :
    (dumpLine offset row).toList.splitOn ' ' = hexDigits 8 offset :: [] :: row.map hexByte := by
  rw [toList_dumpLine offset hrow]
  apply List.splitOn_intercalate
  · intro field hfield
    obtain rfl | hfield := List.mem_cons.mp hfield
    · exact blank_notMem_hexDigits offset
    · obtain rfl | hcolumn := List.mem_cons.mp hfield
      · exact List.not_mem_nil
      · obtain ⟨b, _, rfl⟩ := List.mem_map.mp hcolumn
        exact blank_notMem_hexByte b
  · exact List.cons_ne_nil _ _

/-- Reading the line for a row gives its offset and the row. -/
theorem readDumpLine?_dumpLine (offset : Nat) {row : List UInt8} (hrow : row ≠ []) :
    readDumpLine? (dumpLine offset row) =
      some ((Nat.toDigits 16 offset).leftpad 8 '0', row) := by
  unfold readDumpLine?
  rw [splitOn_dumpLine offset hrow]
  dsimp only
  rw [mapM_readColumn?]
  rfl

/-! ### All lines -/

/-- A dump shows its bytes in rows of sixteen. -/
theorem dumpLines_eq (offset : Nat) (bytes : List UInt8) :
    ∃ rows : List (List UInt8), rows.flatten = bytes ∧
      (∀ row ∈ rows, row ≠ [] ∧ row.length ≤ 16) ∧
      (∀ row ∈ rows.dropLast, row.length = 16) ∧
      dumpLines offset bytes = rows.mapIdx fun k row ↦ dumpLine (offset + 16 * k) row := by
  induction offset, bytes using dumpLines.induct with
  | case1 offset => exact ⟨[], rfl, by simp, by simp, by simp [dumpLines]⟩
  | case2 offset b rest ih =>
      obtain ⟨rows, hflatten, hrows, hfull, hlines⟩ := ih
      have hlength : ((b :: rest).take dumpWidth).length = min 16 (rest.length + 1) :=
        List.length_take
      refine ⟨(b :: rest).take dumpWidth :: rows, ?_, ?_, ?_, ?_⟩
      · rw [List.flatten_cons, hflatten, List.take_append_drop]
      · intro row hrow
        obtain rfl | hrow := List.mem_cons.mp hrow
        · rw [← List.length_pos_iff, hlength]
          omega
        · exact hrows row hrow
      · cases rows with
        | nil => exact fun _ hrow ↦ absurd hrow List.not_mem_nil
        | cons next rows =>
            intro row hrow
            obtain rfl | hrow := List.mem_cons.mp hrow
            · -- Bytes are left for the next row only when this one is full.
              have hnext : 0 < ((b :: rest).drop dumpWidth).length := by
                rw [← hflatten, List.flatten_cons, List.length_append]
                have hpos := List.length_pos_iff.mpr (hrows next List.mem_cons_self).1
                omega
              rw [List.length_drop, List.length_cons, dumpWidth] at hnext
              rw [hlength]
              omega
            · exact hfull row hrow
      · have hoffsets : ∀ k, offset + 16 * (k + 1) = offset + dumpWidth + 16 * k := by
          intro k
          rw [dumpWidth]
          omega
        rw [dumpLines, hlines, List.mapIdx_cons]
        simp only [hoffsets]
        rfl

/-- The lines of a dump from the start show its bytes. -/
theorem dumps_dumpLines (bytes : List UInt8) : Dumps (dumpLines 0 bytes) bytes := by
  obtain ⟨rows, hflatten, hrows, hfull, hlines⟩ := dumpLines_eq 0 bytes
  refine ⟨rows, hflatten, hrows, hfull, ?_⟩
  rw [hlines]
  apply List.ext_getElem
  · simp
  · intro k hk hk'
    have hbound : k < rows.length := by simpa using hk
    have hrow : rows[k] ≠ [] := (hrows _ (List.getElem_mem hbound)).1
    rw [List.getElem_map, List.getElem_mapIdx, List.getElem_mapIdx, Nat.zero_add,
      readDumpLine?_dumpLine _ hrow]

/-! ### The command -/

/-- The text of lines, each with an end of line. -/
def linesText (lines : List String) : String := String.join (lines.map (· ++ "\n"))

/-- Writing lines appends their text to the output. -/
theorem perform_writeLines (lines : List String) (around : Surroundings) (s : Session) :
    Action.perform (forIn lines PUnit.unit fun line _ ↦ do
        Action.write (line ++ "\n")
        pure (ForInStep.yield PUnit.unit)) around s =
      (.ok .unit, { s with output := s.output ++ linesText lines }) := by
  induction lines generalizing s with
  | nil => simp [linesText]
  | cons line lines ih =>
      have hwrite : Action.perform (Action.write (line ++ "\n")) around s =
        (.ok (), { s with output := s.output ++ (line ++ "\n") }) := rfl
      have htext : linesText (line :: lines) = line ++ "\n" ++ linesText lines := by
        simp [linesText, String.join_cons]
      rw [List.forIn_cons, Action.perform_bind, Action.perform_bind, hwrite]
      dsimp only [Action.perform_pure]
      rw [ih, htext]
      simp only [String.append_assoc]

/-- The command that dumps bytes writes the lines for the bytes drawn after seeding. -/
theorem perform_runRng (seed count : Int) (around : Surroundings) (s : Session) :
    Action.perform (runRng seed count) around s =
      (.ok 0, { s with
        output := s.output ++ linesText
          (dumpLines 0 ((Entropy.Generator.ofSeed seed).draw count.toNat).1) }) := by
  unfold runRng
  rw [Entropy.Generator.seed_wordBytes, Action.perform_bind, perform_writeLines]
  rfl

end Vendoring.CommandLine
