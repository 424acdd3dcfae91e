import Mathlib.Data.List.Basic
import CellMachine.Proofs.Machine.Rest

/-!
# CellMachine.Proofs.Machine.Intents

**An attempt by intents.** A machine decodes a word into an instruction and that into an effect.
`effectOfWord_eq` says that this is to look up what the operands of the operation are for, resolve
them in order and put the effect together.
-/

namespace CellMachine

theorem bind_eq_ok {α β : Type} {x : Except Fault α} {f : α → Except Fault β} {b : β} :
    (x >>= f) = .ok b ↔ ∃ a, x = .ok a ∧ f a = .ok b := by
  cases x with
  | error fault =>
      constructor
      · rintro ⟨⟩
      · rintro ⟨_, ⟨⟩, _⟩
  | ok a =>
      constructor
      · exact fun h => ⟨a, rfl, h⟩
      · rintro ⟨_, ⟨⟩, h⟩
        exact h

theorem length_of_modesFrom {n slot count : Nat} {modes : List Mode}
    (h : modesFrom n slot count = .ok modes) : modes.length = count := by
  induction count generalizing slot modes with
  | zero => cases h; rfl
  | succ count ih =>
      obtain ⟨mode, -, h⟩ := bind_eq_ok.1 h
      obtain ⟨rest, hrest, ⟨⟩⟩ := bind_eq_ok.1 h
      rw [List.length_cons, ih hrest]

/-- What the operands of an operation are for. -/
def Opcode.intents : Opcode → List Intent
  | .add | .multiply | .lessThan | .equals => [.read, .read, .write]
  | .input => [.write]
  | .output | .adjustBase => [.read]
  | .jumpNonzero | .jumpZero => [.read, .read]
  | .halt => []

/-- The effect of an operation on as many resolved operands as it has intents. -/
def Opcode.effect (ip : Int) : Opcode → List Int → Effect
  | .add, [a, b, c] => .store c.toNat (Computation.add.eval a b)
  | .multiply, [a, b, c] => .store c.toNat (Computation.multiply.eval a b)
  | .lessThan, [a, b, c] => .store c.toNat (Computation.lessThan.eval a b)
  | .equals, [a, b, c] => .store c.toNat (Computation.equals.eval a b)
  | .input, [a] => .accept a.toNat
  | .output, [a] => .emit a
  | .jumpNonzero, [a, b] => .goto (if Condition.nonzero.holds a then b else ip + 3)
  | .jumpZero, [a, b] => .goto (if Condition.zero.holds a then b else ip + 3)
  | .adjustBase, [a] => .shift a
  | _, _ => .stop

namespace Machine

theorem length_of_resolveFrom {m : Machine} {slot : Nat} {l : List (Mode × Intent)}
    {values : List Int} (h : m.resolveFrom slot l = .ok values) : values.length = l.length := by
  induction l generalizing slot values with
  | nil => cases h; rfl
  | cons p rest ih =>
      obtain ⟨value, -, h⟩ := bind_eq_ok.1 h
      obtain ⟨values, hvalues, ⟨⟩⟩ := bind_eq_ok.1 h
      rw [List.length_cons, ih hvalues, List.length_cons]

theorem effectOf_eq (m : Machine) (i : Instruction) :
    m.effectOf i = do
      let operands ← m.resolveFrom 0 (i.modes.zip i.opcode.intents)
      return i.opcode.effect m.ip operands := by
  -- both sides resolve the same operands in the same order, and stop at the same fault
  cases i with
  | compute op x y dest =>
      cases op <;>
        (simp only [effectOf, Instruction.modes, Instruction.opcode, Opcode.intents,
          List.zip_cons_cons, List.zip_nil_right, resolveFrom, resolve]
         cases m.operand 0 x with
         | error fault => rfl
         | ok a =>
            cases m.operand 1 y with
            | error fault => rfl
            | ok b => cases m.target 2 dest <;> rfl)
  | input dest =>
      simp only [effectOf, Instruction.modes, Instruction.opcode, Opcode.intents,
        List.zip_cons_cons, List.zip_nil_right, resolveFrom, resolve]
      cases m.target 0 dest <;> rfl
  | output x =>
      simp only [effectOf, Instruction.modes, Instruction.opcode, Opcode.intents,
        List.zip_cons_cons, List.zip_nil_right, resolveFrom, resolve]
      cases m.operand 0 x <;> rfl
  | jump cond x dest =>
      cases cond <;>
        (simp only [effectOf, Instruction.modes, Instruction.opcode, Opcode.intents,
          List.zip_cons_cons, List.zip_nil_right, resolveFrom, resolve]
         cases m.operand 0 x with
         | error fault => rfl
         | ok a => cases m.operand 1 dest <;> rfl)
  | adjustBase x =>
      simp only [effectOf, Instruction.modes, Instruction.opcode, Opcode.intents,
        List.zip_cons_cons, List.zip_nil_right, resolveFrom, resolve]
      cases m.operand 0 x <;> rfl
  | halt => rfl

end Machine

/-- Assembling an operation is reading as many modes as it has intents. -/
theorem Instruction.assemble_bind {β : Type} (n : Nat) (op : Opcode)
    (f : Instruction → Except Fault β) (g : List Mode → Except Fault β)
    (hfg : ∀ i, i.opcode = op → f i = g i.modes) :
    (assemble n op >>= f) = modesFrom n 0 op.intents.length >>= g := by
  -- a mode that cannot be read is the same fault on both sides
  cases op with
  | add | multiply | lessThan | equals =>
      simp only [assemble, assemble.compute, Opcode.intents, List.length_cons, List.length_nil,
        modesFrom, Nat.zero_add, Nat.reduceAdd]
      rcases modeAt n 0 with fault | x
      · rfl
      rcases modeAt n 1 with fault | y
      · rfl
      rcases modeAt n 2 with fault | dest
      · rfl
      exact hfg _ rfl
  | jumpNonzero | jumpZero =>
      simp only [assemble, assemble.jump, Opcode.intents, List.length_cons, List.length_nil,
        modesFrom, Nat.zero_add]
      rcases modeAt n 0 with fault | x
      · rfl
      rcases modeAt n 1 with fault | dest
      · rfl
      exact hfg _ rfl
  | input | output | adjustBase =>
      simp only [assemble, Opcode.intents, List.length_cons, List.length_nil, modesFrom,
        Nat.zero_add]
      rcases modeAt n 0 with fault | x
      · rfl
      exact hfg _ rfl
  | halt => exact hfg _ rfl

theorem Machine.effectOfWord_eq (m : Machine) (word : Int) :
    m.effectOfWord word = do
      let n ← wordNumber word
      let op ← opcodeOf n
      let modes ← modesFrom n 0 op.intents.length
      let operands ← m.resolveFrom 0 (modes.zip op.intents)
      return op.effect m.ip operands := by
  rw [effectOfWord, Instruction.decode, bind_assoc]
  apply bind_congr
  intro n
  rw [bind_assoc]
  apply bind_congr
  intro op
  apply Instruction.assemble_bind n op
  rintro i rfl
  exact m.effectOf_eq i

end CellMachine
