import CellMachine.Index

/-!
# Channels

A channel is an unbounded queue of integers: values leave at the front and enter at the back. Its
view is the list `queue`, front first.
-/

namespace CellMachine

/-- A queue of integers. -/
structure Channel where
  /-- The waiting values, front first. -/
  queue : List Int := []
  deriving DecidableEq, Repr

/-- What a channel cannot give. -/
inductive Channel.Error where
  /-- The front of an empty channel. -/
  | empty
  /-- A position that holds no value. -/
  | outOfRange
  /-- A position that is no index. -/
  | noIndex
  deriving DecidableEq, Repr

/-- The wording of a refusal. -/
def Channel.Error.message : Channel.Error → String
  | .empty => "pop from an empty deque"
  | .outOfRange => "deque index out of range"
  | .noIndex => Index.refusal

namespace Channel

/-- A channel that holds these values. -/
def ofList (values : List Int) : Channel := ⟨values⟩

/-- How many values wait. -/
def size (c : Channel) : Nat := c.queue.length

/-- Appends one value at the back. -/
def push (c : Channel) (value : Int) : Channel := ⟨c.queue ++ [value]⟩

/-- Appends values at the back, in order. -/
def extend (c : Channel) (values : List Int) : Channel := ⟨c.queue ++ values⟩

/-- The front value and the channel without it. -/
def pop? (c : Channel) : Option (Int × Channel) :=
  match c.queue with
  | [] => none
  | value :: rest => some (value, ⟨rest⟩)

/-- All values, and the channel emptied of them. -/
def drain (c : Channel) : List Int × Channel := (c.queue, ⟨[]⟩)

/-- The value at a position; positions below zero count from the back, -1 being the last. -/
def get? (c : Channel) (i : Int) : Option Int :=
  let position := if i < 0 then i + c.size else i
  if position < 0 then none else c.queue[position.toNat]?

/-- The value at a position, or why there is none. -/
def get (c : Channel) (i : Int) : Except Error Int :=
  if Index.fits i then
    match c.get? i with
    | some value => .ok value
    | none => .error .outOfRange
  else .error .noIndex

/-- A channel as text: its values between brackets. -/
def text (c : Channel) : String :=
  "Channel([" ++ ", ".intercalate (c.queue.map toString) ++ "])"

@[simp] theorem queue_ofList (values : List Int) : (ofList values).queue = values := rfl
@[simp] theorem queue_push (c : Channel) (value : Int) :
    (c.push value).queue = c.queue ++ [value] := rfl
@[simp] theorem queue_extend (c : Channel) (values : List Int) :
    (c.extend values).queue = c.queue ++ values := rfl
@[simp] theorem pop?_nil : pop? ⟨[]⟩ = none := rfl
@[simp] theorem pop?_cons (value : Int) (rest : List Int) :
    pop? ⟨value :: rest⟩ = some (value, ⟨rest⟩) := rfl

theorem extend_extend (c : Channel) (xs ys : List Int) :
    (c.extend xs).extend ys = c.extend (xs ++ ys) := by
  simp [extend]

end Channel

end CellMachine
