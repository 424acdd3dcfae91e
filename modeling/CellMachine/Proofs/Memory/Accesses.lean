import CellMachine.Proofs.Image.Patch

/-!
# CellMachine.Proofs.Memory.Accesses

**A memory is a total map that starts with its image and zeros.** A caller reads and writes cells,
by their addresses or by index. What the memory answers depends on the image and on what was written
before (`total_with_zeros`): the sparse part holds the cells beyond the image that were written, and
each of them was noted once, when it was written first.

The induction over the accesses is on the memory they start from, which need not be fresh; so the
first access may be split off, and an extension is an address that is not in the sparse part yet.
-/

namespace CellMachine.Memory

variable {m : Memory} {a b : Nat} {v : Int}

/-! ### The sparse part -/

theorem extendsAt_iff : m.extendsAt a = true ↔ m.size ≤ a ∧ a ∉ m.sparse := by
  rw [extendsAt, Bool.and_eq_true, Bool.not_eq_true', Bool.not_eq_true', decide_eq_false_iff_not,
    Nat.not_lt, Std.TreeMap.mem_iff_contains, Bool.not_eq_true]
  rfl

/-- A write puts an address beyond the image into the sparse part, and takes none out. -/
theorem mem_sparse_set : b ∈ (m.set a v).sparse ↔ b ∈ m.sparse ∨ m.size ≤ a ∧ a = b := by
  unfold set
  split
  · rename_i h
    refine (or_iff_left ?_).symm
    intro hbeyond
    exact absurd hbeyond.1 (Nat.not_le.2 h)
  · rename_i h
    rw [Std.TreeMap.mem_insert, Nat.compare_eq_eq, or_comm]
    exact or_congr_right (and_iff_right (Nat.not_lt.1 h)).symm

/-- A write brings one new cell into being at most. -/
theorem size_sparse_set_le (m : Memory) (a : Nat) (v : Int) :
    (m.set a v).sparse.size ≤ m.sparse.size + 1 := by
  unfold set
  split
  · exact Nat.le_succ _
  · exact Std.TreeMap.size_insert_le

/-! ### Accesses -/

/-- What a caller may do with a memory. -/
inductive Access where
  /-- Read a cell. -/
  | read (address : Int)
  /-- Write a cell. -/
  | write (address value : Int)
  /-- Read a cell by index. -/
  | index (address : Int)
  /-- Write a cell by index. -/
  | assign (address value : Int)
  deriving DecidableEq, Repr

namespace Access

/-- The address that is accessed. -/
def address : Access → Int
  | .read address | .index address | .write address _ | .assign address _ => address

/-- The value that is written, unless a cell is read. -/
def value? : Access → Option Int
  | .read _ | .index _ => none
  | .write _ value | .assign _ value => some value

/-- The cell that is written, if the access writes one: there is none below zero. -/
def written? (access : Access) : Option (Int × Int) :=
  if access.address < 0 then none else access.value?.map (access.address, ·)

end Access

/-- What comes of an access. -/
structure Accessed where
  /-- The value that was read, nothing after a write, or the fault. -/
  reply : Except Fault (Option Int)
  /-- What was noted. -/
  log : List Event
  /-- The memory afterwards. -/
  memory : Memory

/-- Does one access; the memory stays as it is after a fault. -/
def access (m : Memory) : Access → Accessed
  | .read address | .index address => ⟨(m.read address).map some, [], m⟩
  | .write address value | .assign address value =>
    match m.write address value with
    | ⟨log, .error fault⟩ => ⟨.error fault, log, m⟩
    | ⟨log, .ok next⟩ => ⟨.ok none, log, next⟩

/-- The memory after accesses, one after another. -/
def after (m : Memory) : List Access → Memory
  | [] => m
  | op :: later => (m.access op).memory.after later

/-- What is noted in accesses, one after another. -/
def journal (m : Memory) : List Access → List Event
  | [] => []
  | op :: later => (m.access op).log ++ (m.access op).memory.journal later

/-- The cells that are written in accesses, with their values, in order. -/
def written (past : List Access) : List (Int × Int) := past.filterMap Access.written?

variable {op : Access} {past : List Access}

/-! ### One access -/

theorem access_of_neg (m : Memory) (h : op.address < 0) :
    m.access op = ⟨.error { cause := .negativeAddress op.address }, [], m⟩ := by
  cases op with
  | read address | index address =>
      replace h : address < 0 := h
      rw [access, read_of_neg m h]
      rfl
  | write address value | assign address value =>
      replace h : address < 0 := h
      rw [access, write_of_neg m value h]
      rfl

theorem access_of_read (m : Memory) (hread : op.value? = none) (h : 0 ≤ op.address) :
    m.access op = ⟨.ok (some (m.get op.address.toNat)), [], m⟩ := by
  cases op with
  | read address | index address =>
      replace h : 0 ≤ address := h
      rw [access, read_of_nonneg m h]
      rfl
  | write address value | assign address value => cases hread

theorem access_of_write (m : Memory) (hwrite : op.value? = some v) (h : 0 ≤ op.address) :
    m.access op =
      ⟨.ok none, m.growth op.address.toNat, m.set op.address.toNat v⟩ := by
  obtain ⟨a, ha⟩ := Int.eq_ofNat_of_zero_le h
  cases op with
  | read address | index address => cases hwrite
  | write address value | assign address value =>
      obtain rfl := Option.some.inj hwrite
      obtain rfl : address = a := ha
      rw [access, write_ofNat]
      rfl

/-- An access writes a cell, or it changes and notes nothing. -/
theorem access_cases (m : Memory) (op : Access) :
    (∃ (a : Nat) (v : Int), op.written? = some ((a : Int), v) ∧ (m.access op).memory = m.set a v ∧
      (m.access op).log = m.growth a) ∨
    op.written? = none ∧ (m.access op).memory = m ∧ (m.access op).log = [] := by
  rcases Int.lt_or_le op.address 0 with h | h
  · rw [access_of_neg m h, Access.written?, if_pos h]
    exact .inr ⟨rfl, rfl, rfl⟩
  · rw [Access.written?, if_neg (Int.not_lt.2 h)]
    cases hvalue : op.value? with
    | none =>
        rw [access_of_read m hvalue h]
        exact .inr ⟨rfl, rfl, rfl⟩
    | some v =>
        rw [access_of_write m hvalue h]
        refine .inl ⟨op.address.toNat, v, ?_, rfl, rfl⟩
        rw [Int.toNat_of_nonneg h, Option.map_some]

/-! ### Many accesses -/

theorem written_cons_some {cell : Int × Int} (h : op.written? = some cell) :
    written (op :: past) = cell :: written past := List.filterMap_cons_some h

theorem written_cons_none (h : op.written? = none) : written (op :: past) = written past :=
  List.filterMap_cons_none h

theorem nonneg_of_written {cell : Int × Int} (h : cell ∈ written past) : 0 ≤ cell.1 := by
  obtain ⟨op, -, hop⟩ := List.mem_filterMap.1 h
  unfold Access.written? at hop
  split at hop
  · cases hop
  · rename_i haddress
    obtain ⟨v, -, rfl⟩ := Option.map_eq_some_iff.1 hop
    exact Int.not_lt.1 haddress

theorem size_after (m : Memory) (past : List Access) : (m.after past).size = m.size := by
  induction past generalizing m with
  | nil => rfl
  | cons op past ih =>
      rw [after, ih]
      obtain ⟨a, v, -, hmemory, -⟩ | ⟨-, hmemory, -⟩ := m.access_cases op
      · rw [hmemory, size_set]
      · rw [hmemory]

theorem get_set_eq_overwrite (m : Memory) (a : Nat) (v : Int) :
    (m.set a v).get = overwrite m.get (a, v) := by
  funext b
  rw [get_set, overwrite_apply, Int.toNat_natCast]

/-- Accesses overwrite the cells that they write. -/
theorem get_after (m : Memory) (past : List Access) :
    (m.after past).get = (written past).foldl overwrite m.get := by
  induction past generalizing m with
  | nil => rfl
  | cons op past ih =>
      rw [after, ih]
      obtain ⟨a, v, hwritten, hmemory, -⟩ | ⟨hwritten, hmemory, -⟩ := m.access_cases op
      · rw [hmemory, written_cons_some hwritten, List.foldl_cons, get_set_eq_overwrite]
      · rw [hmemory, written_cons_none hwritten]

/-- What accesses put into the sparse part is what they write beyond the image. -/
theorem mem_sparse_after (m : Memory) (past : List Access) (b : Nat) :
    b ∈ (m.after past).sparse ↔
      b ∈ m.sparse ∨ m.size ≤ b ∧ (b : Int) ∈ (written past).map Prod.fst := by
  induction past generalizing m with
  | nil => simp [after, written]
  | cons op past ih =>
      rw [after, ih]
      obtain ⟨a, v, hwritten, hmemory, -⟩ | ⟨hwritten, hmemory, -⟩ := m.access_cases op
      · rw [hmemory, written_cons_some hwritten, size_set, mem_sparse_set, List.map_cons,
          List.mem_cons, Int.natCast_inj]
        constructor
        · rintro ((hold | ⟨hbeyond, rfl⟩) | ⟨hbeyond, hlater⟩)
          · exact .inl hold
          · exact .inr ⟨hbeyond, .inl rfl⟩
          · exact .inr ⟨hbeyond, .inr hlater⟩
        · rintro (hold | ⟨hbeyond, rfl | hlater⟩)
          · exact .inl (.inl hold)
          · exact .inl (.inr ⟨hbeyond, rfl⟩)
          · exact .inr ⟨hbeyond, hlater⟩
      · rw [hmemory, written_cons_none hwritten]

/-! ### Extensions -/

/-- These are the cells that writing at these addresses brings into being, each once and in the
order in which the addresses come first. -/
structure Extensions (m : Memory) (addresses : List Int) (new : List Nat) : Prop where
  mem : ∀ a, a ∈ new ↔ m.size ≤ a ∧ a ∉ m.sparse ∧ (a : Int) ∈ addresses
  order : new.Pairwise fun (a b : Nat) => addresses.idxOf (a : Int) < addresses.idxOf (b : Int)

theorem Extensions.nodup {addresses : List Int} {new : List Nat} (h : Extensions m addresses new) :
    new.Nodup := by
  refine h.order.imp ?_
  intro a b hlt heq
  rw [heq] at hlt
  exact Nat.lt_irrefl _ hlt

/-- One more write in front brings its cell into being first, unless that is there already. -/
theorem Extensions.cons {addresses : List Int} {new : List Nat}
    (h : Extensions (m.set a v) addresses new) :
    Extensions m (a :: addresses) (if m.extendsAt a then a :: new else new) := by
  have hmem : ∀ b, b ∈ new ↔
      m.size ≤ b ∧ ¬(b ∈ m.sparse ∨ m.size ≤ a ∧ a = b) ∧ (b : Int) ∈ addresses := by
    intro b
    rw [h.mem, size_set, mem_sparse_set]
  have hne : ∀ b ∈ new, (a : Int) ≠ b := by
    intro b hb heq
    obtain rfl := Int.natCast_inj.1 heq
    obtain ⟨hbeyond, hnew, -⟩ := (hmem a).1 hb
    exact hnew (.inr ⟨hbeyond, rfl⟩)
  have horder : new.Pairwise fun (b c : Nat) =>
      ((a : Int) :: addresses).idxOf (b : Int) < ((a : Int) :: addresses).idxOf (c : Int) := by
    refine h.order.imp_of_mem ?_
    intro b c hb hc hlt
    rw [List.idxOf_cons_ne _ (hne b hb), List.idxOf_cons_ne _ (hne c hc)]
    exact Nat.succ_lt_succ hlt
  by_cases hextends : m.extendsAt a = true
  · rw [if_pos hextends]
    obtain ⟨hbeyond, hfresh⟩ := extendsAt_iff.1 hextends
    refine ⟨?_, List.pairwise_cons.2 ⟨?_, horder⟩⟩
    · intro b
      rw [List.mem_cons, hmem, List.mem_cons, Int.natCast_inj]
      by_cases hab : b = a
      · subst hab
        exact iff_of_true (.inl rfl) ⟨hbeyond, hfresh, .inl rfl⟩
      · simp [hab, Ne.symm hab]
    · intro b hb
      rw [List.idxOf_cons_self, List.idxOf_cons_ne _ (hne b hb)]
      exact Nat.succ_pos _
  · rw [if_neg hextends]
    refine ⟨?_, horder⟩
    intro b
    rw [hmem, List.mem_cons, Int.natCast_inj]
    by_cases hab : b = a
    · subst hab
      have hold : ¬(m.size ≤ b ∧ b ∉ m.sparse) := mt extendsAt_iff.2 hextends
      constructor
      · rintro ⟨hbeyond, hnew, -⟩
        exact absurd ⟨hbeyond, fun hmem => hnew (.inl hmem)⟩ hold
      · rintro ⟨hbeyond, hfresh, -⟩
        exact absurd ⟨hbeyond, hfresh⟩ hold
    · simp [hab, Ne.symm hab]

/-- Accesses note the cells that they bring into being. -/
theorem journal_eq (m : Memory) (past : List Access) :
    ∃ new, m.journal past = new.map .extending ∧
      Extensions m ((written past).map Prod.fst) new := by
  induction past generalizing m with
  | nil => exact ⟨[], rfl, by simp [written], .nil⟩
  | cons op past ih =>
      obtain ⟨new, hjournal, hnew⟩ := ih (m.access op).memory
      rw [journal, hjournal]
      obtain ⟨a, v, hwritten, hmemory, hlog⟩ | ⟨hwritten, hmemory, hlog⟩ := m.access_cases op
      · rw [hmemory] at hnew
        rw [hlog, growth, written_cons_some hwritten]
        refine ⟨_, ?_, hnew.cons⟩
        split <;> rfl
      · rw [hmemory] at hnew
        rw [hlog, written_cons_none hwritten]
        exact ⟨new, rfl, hnew⟩

end CellMachine.Memory
