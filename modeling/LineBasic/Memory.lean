import LineBasic.Diagnostic.Basic
import Std.Data.ExtTreeMap

namespace LineBasic

/-!
# Memory

The 65536 bytes that `USR` reads and writes. A negative address counts back from the top, so every
value of the language is the address of a byte. All bytes are zero at first, and only those that
have been written are kept.
-/

/-- A memory of 65536 bytes. -/
structure Memory where
  /-- The bytes that have been written, by their places. -/
  cells : Std.ExtTreeMap UInt16 UInt8 := ∅
  deriving DecidableEq

namespace Memory

/-- The memory with all bytes zero. -/
def empty : Memory := {}

instance : Inhabited Memory := ⟨empty⟩

/-- How many bytes there are. -/
def size : Nat := 65536

/-- The byte at an address. -/
def peek (m : Memory) (address : Int16) : UInt8 := m.cells.getD address.toUInt16 0

/-- Writes the byte at an address. -/
def poke (m : Memory) (address : Int16) (byte : UInt8) : Memory :=
  ⟨m.cells.insert address.toUInt16 byte⟩

/-- A short text of a memory. -/
def debugText (_ : Memory) : String := "Memory(" ++ Text.ofNat size ++ " bytes)"

/-- Different addresses have different places. -/
theorem place_inj {a b : Int16} : a.toUInt16 = b.toUInt16 ↔ a = b :=
  ⟨fun h => by rw [← Int16.toInt16_toUInt16 a, h, Int16.toInt16_toUInt16], congrArg _⟩

/-- Before anything is written, every byte is zero. -/
theorem peek_empty (a : Int16) : empty.peek a = 0 := by
  simp [peek, empty]

/-- A read after a write gives what was written at that address, and what was there before at any
other. -/
theorem peek_poke (m : Memory) (a b : Int16) (v : UInt8) :
    (m.poke a v).peek b = if b = a then v else m.peek b := by
  have h : compare a.toUInt16 b.toUInt16 = .eq ↔ b = a := by
    rw [Std.LawfulEqCmp.compare_eq_iff_eq, place_inj, eq_comm]
  simp only [peek, poke, Std.ExtTreeMap.getD_insert, h]

/-! ### Machine routines -/

/-- The routine that reads a byte. -/
def readRoutine : Int16 := 276

/-- The routine that writes a byte. -/
def writeRoutine : Int16 := 280

/-- A call of `USR` with up to three arguments: the routine, the address and the value. It gives the
byte that was read or written. -/
def call (m : Memory) (arguments : List Int16) : Except Cause (Int16 × Memory) :=
  let routine := arguments.headD 0
  if routine ≠ readRoutine ∧ routine ≠ writeRoutine then .error (.usrRoutine routine)
  else
    match arguments.tail with
    | [] => .error .usrAddress
    | address :: others =>
      if routine = readRoutine then .ok (.ofNat (m.peek address).toNat, m)
      else
        match others with
        | [] => .error .usrMissingValue
        | value :: _ =>
          if value < 0 ∨ 256 ≤ value then .error (.usrValue value)
          else .ok (value, m.poke address (.ofNat value.toNatClampNeg))

end Memory

end LineBasic
