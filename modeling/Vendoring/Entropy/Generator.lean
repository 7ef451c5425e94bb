import Vendoring.Text.Hex
import Vendoring.Text.Integer

/-!
# A seeded byte generator

A linear congruential generator on 64-bit words. Every byte drawn advances the state once and is
taken from bits 33 to 40 of the new state. The generator has the operations of a pluggable source
of randomness, of which only seeding and drawing have an effect.
-/

namespace Vendoring.Entropy

/-- The factor of a step. -/
def multiplier : UInt64 := 6364136223846793005

/-- The summand of a step. -/
def increment : UInt64 := 1

/-- How many bytes make a seed. -/
def seedLength : Nat := 8

/-- The seed used when none is given. -/
def defaultSeed : Int := 42

/-- The 64-bit word congruent to an integer. -/
def wordOf (n : Int) : UInt64 := UInt64.ofInt n

/-- The eight bytes of a word, the least significant first. -/
def wordBytes (w : UInt64) : List UInt8 :=
  (List.range seedLength).map fun i ↦ (w >>> UInt64.ofNat (8 * i)).toUInt8

/-- The word that bytes stand for, the least significant first. -/
def wordOfBytes (bytes : List UInt8) : UInt64 :=
  UInt64.ofNat (bytes.foldr (fun b value ↦ b.toNat + 256 * value) 0)

/-- A negative count cannot be drawn. -/
structure DrawError where
  count : Int
  deriving DecidableEq, Repr

/-- The wording of the error. -/
def DrawError.message (e : DrawError) : String :=
  "cannot generate " ++ Text.intText e.count ++ " bytes"

/-- A generator is its state. -/
structure Generator where
  state : UInt64
  deriving DecidableEq, Repr

namespace Generator

/-- The generator seeded with an integer. -/
def ofSeed (seed : Int) : Generator := ⟨wordOf seed⟩

instance : Inhabited Generator := ⟨ofSeed defaultSeed⟩

/-- The generator after one step. -/
def next (g : Generator) : Generator := ⟨multiplier * g.state + increment⟩

/-- The byte that a state shows. -/
def byte (g : Generator) : UInt8 := (g.state >>> 33).toUInt8

/-- Draw a number of bytes after those already drawn, which are given last first. -/
def drawAfter (drawn : List UInt8) : Nat → Generator → List UInt8 × Generator
  | 0, g => (drawn.reverse, g)
  | n + 1, g => drawAfter (g.next.byte :: drawn) n g.next

/-- Draw a number of bytes. -/
def draw (n : Nat) (g : Generator) : List UInt8 × Generator := drawAfter [] n g

/-- Bytes drawn before come first and do not change those that follow. -/
theorem drawAfter_eq (drawn : List UInt8) (n : Nat) (g : Generator) :
    drawAfter drawn n g = (drawn.reverse ++ (draw n g).1, (draw n g).2) := by
  induction n generalizing drawn g with
  | zero => simp [draw, drawAfter]
  | succ n ih => simp [draw, drawAfter, ih (g.next.byte :: drawn), ih [g.next.byte]]

/-- Drawing nothing changes nothing. -/
@[simp]
theorem draw_zero (g : Generator) : draw 0 g = ([], g) := rfl

/-- The first byte drawn is that of the next state; the others are drawn from there. -/
@[simp]
theorem draw_succ (n : Nat) (g : Generator) :
    draw (n + 1) g = (g.next.byte :: (draw n g.next).1, (draw n g.next).2) := by
  simp [draw, drawAfter, drawAfter_eq [g.next.byte]]

/-- Adopt the first eight bytes of a buffer as the state; refused when fewer are declared or
offered. The declared length is the buffer's own unless given. -/
def seed (g : Generator) (buffer : List UInt8) (length : Option Int) : Bool × Generator :=
  let declared := length.getD buffer.length
  if declared < seedLength ∨ buffer.length < seedLength then (false, g)
  else (true, ⟨wordOfBytes (buffer.take seedLength)⟩)

/-- Draw as many bytes as an integer says. -/
def generate (g : Generator) (count : Int) : Except DrawError (List UInt8 × Generator) :=
  if count < 0 then .error ⟨count⟩ else .ok (draw count.toNat g)

/-- An operation of the generator. -/
inductive Op where
  | generate (count : Int)
  | seed (buffer : List UInt8) (length : Option Int)
  | addEntropy
  | cleanup
  | status
  deriving DecidableEq, Repr

/-- What an operation answers. -/
inductive Answer where
  | bytes (bs : List UInt8)
  | flag (b : Bool)
  | done
  deriving DecidableEq, Repr

/-- Perform an operation. Outside entropy is ignored, and there is nothing to clean up. -/
def perform (g : Generator) : Op → Except DrawError Answer × Generator
  | .generate count => match g.generate count with
    | .ok (bs, g) => (.ok (.bytes bs), g)
    | .error e => (.error e, g)
  | .seed buffer length =>
    let (accepted, g) := g.seed buffer length
    (.ok (.flag accepted), g)
  | .addEntropy => (.ok (.flag true), g)
  | .cleanup => (.ok .done, g)
  | .status => (.ok (.flag true), g)

/-- Perform operations in order and collect the answers. -/
def run (g : Generator) : List Op → List (Except DrawError Answer) × Generator
  | [] => ([], g)
  | op :: rest =>
    let (answer, g) := g.perform op
    let (answers, g) := g.run rest
    (answer :: answers, g)

/-- As many bytes are drawn as asked for. -/
theorem length_draw (n : Nat) (g : Generator) : (draw n g).1.length = n := by
  induction n generalizing g with
  | zero => rfl
  | succ n ih => simp [ih]

/-- Drawing in two parts gives the bytes of both in a row and the state after both. -/
theorem draw_add (m n : Nat) (g : Generator) :
    draw (m + n) g =
      ((draw m g).1 ++ (draw n (draw m g).2).1, (draw n (draw m g).2).2) := by
  induction m generalizing g with
  | zero => simp
  | succ m ih => simp [Nat.succ_add, ih]

end Generator
end Vendoring.Entropy
