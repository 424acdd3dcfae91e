import Std.Data.TreeMap.Lemmas
import CellMachine.Logged

/-!
# Memory

Cells are numbered from zero and hold integers of any size. A memory is an *image*, the cells a
program was loaded into, and a sparse part for the cells beyond it, which come into being when they
are first written. Every other cell holds zero.

The view of a memory is `Memory.get`, a total function on addresses; `get_set` says what writing
does to it. Only addresses below zero can fail, in `Memory.address`, and nothing else in this module
can: what a write notes is data, which no digit limit refuses.
-/

namespace CellMachine

/-- An image and the cells written beyond it. -/
structure Memory where
  /-- The cells of the image. -/
  dense : Array Int
  /-- The cells beyond the image that were written, a written zero included. -/
  sparse : Std.TreeMap Nat Int := ∅

namespace Memory

/-- The memory a program is loaded into. -/
def ofImage (image : List Int) : Memory := { dense := image.toArray }

/-- The size of the image; later writes never change it. -/
def size (m : Memory) : Nat := m.dense.size

/-- The cell at an address. -/
def get (m : Memory) (a : Nat) : Int :=
  if h : a < m.dense.size then m.dense[a] else m.sparse.getD a 0

/-- The memory after a value was written at an address. -/
def set (m : Memory) (a : Nat) (v : Int) : Memory :=
  if h : a < m.dense.size then
    { m with dense := m.dense.set a v h }
  else
    { m with sparse := m.sparse.insert a v }

/-- Would a write at this address bring a new cell into being? -/
def extendsAt (m : Memory) (a : Nat) : Bool :=
  !decide (a < m.dense.size) && !m.sparse.contains a

/-- What a write at an address notes. -/
def growth (m : Memory) (a : Nat) : List Event :=
  if m.extendsAt a then [.extending a] else []

/-- The address an integer stands for: there is none below zero. -/
def address (a : Int) : Except Fault Nat :=
  if a < 0 then .error { cause := .negativeAddress a } else .ok a.toNat

/-- Reads the cell at an address that may be below zero. -/
def read (m : Memory) (a : Int) : Except Fault Int :=
  (address a).map m.get

/-- Writes the cell at an address that may be below zero. -/
def write (m : Memory) (a v : Int) : Logged Fault Memory :=
  match address a with
  | .error f => .fail f
  | .ok a => ⟨m.growth a, .ok (m.set a v)⟩

/-! ## The view -/

@[simp] theorem size_ofImage (image : List Int) : (ofImage image).size = image.length := by
  simp [ofImage, size]

@[simp] theorem get_ofImage (image : List Int) (a : Nat) :
    (ofImage image).get a = image.getD a 0 := by
  by_cases h : a < image.length <;> simp [ofImage, get, h]

@[simp] theorem size_set (m : Memory) (a : Nat) (v : Int) : (m.set a v).size = m.size := by
  unfold set size; split <;> simp

/-- A write changes the cell it names and no other. -/
theorem get_set (m : Memory) (a b : Nat) (v : Int) :
    (m.set a v).get b = if a = b then v else m.get b := by
  by_cases ha : a < m.dense.size
  · by_cases hb : b < m.dense.size
    · simp [set, get, ha, hb, Array.getElem_set]
    · have hab : a ≠ b := by omega
      simp [set, get, ha, hb, hab]
  · by_cases hb : b < m.dense.size
    · have hab : a ≠ b := by omega
      simp [set, get, ha, hb, hab]
    · simp [set, get, ha, hb, Std.TreeMap.getD_insert]

@[simp] theorem get_set_self (m : Memory) (a : Nat) (v : Int) : (m.set a v).get a = v := by
  simp [get_set]

theorem get_set_of_ne (m : Memory) {a b : Nat} (v : Int) (h : a ≠ b) :
    (m.set a v).get b = m.get b := by
  simp [get_set, h]

/-! ## Addresses -/

@[simp] theorem address_ofNat (a : Nat) : address (a : Int) = .ok a := by
  simp [address, Int.not_lt.2 (Int.natCast_nonneg a)]

theorem address_of_neg {a : Int} (h : a < 0) :
    address a = .error { cause := .negativeAddress a } := by
  simp [address, h]

theorem address_of_nonneg {a : Int} (h : 0 ≤ a) : address a = .ok a.toNat := by
  simp [address, Int.not_lt.2 h]

@[simp] theorem read_ofNat (m : Memory) (a : Nat) : m.read a = .ok (m.get a) := by
  simp [read, Except.map]

theorem read_of_neg (m : Memory) {a : Int} (h : a < 0) :
    m.read a = .error { cause := .negativeAddress a } := by
  simp [read, address_of_neg h, Except.map]

theorem read_of_nonneg (m : Memory) {a : Int} (h : 0 ≤ a) : m.read a = .ok (m.get a.toNat) := by
  simp [read, address_of_nonneg h, Except.map]

@[simp] theorem write_ofNat (m : Memory) (a : Nat) (v : Int) :
    m.write a v = ⟨m.growth a, .ok (m.set a v)⟩ := by
  simp [write]

theorem write_of_neg (m : Memory) {a : Int} (v : Int) (h : a < 0) :
    m.write a v = .fail { cause := .negativeAddress a } := by
  simp [write, address_of_neg h]

end Memory

end CellMachine
