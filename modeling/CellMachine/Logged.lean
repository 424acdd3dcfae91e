import CellMachine.Event

/-!
# Computations that note what they do

A `Logged ε α` holds the events noted so far and the outcome: a value, or the error that ended the
computation. What was noted before an error stays noted. Sequencing appends logs in order, which
the equations `log_bind` and `outcome_bind` state and everything later uses.
-/

namespace CellMachine

/-- What was noted, and how it ended. -/
structure Logged (ε α : Type) where
  /-- The events in the order they happened. -/
  log : List Event
  /-- A value, or the error that ended the computation. -/
  outcome : Except ε α

namespace Logged

variable {ε δ α β : Type}

@[ext] protected theorem ext {x y : Logged ε α} (hlog : x.log = y.log)
    (houtcome : x.outcome = y.outcome) : x = y := by
  cases x; cases y; simp_all

/-- A value, with nothing noted. -/
protected def pure (a : α) : Logged ε α := ⟨[], .ok a⟩

/-- An error, with nothing noted. -/
def fail (e : ε) : Logged ε α := ⟨[], .error e⟩

/-- Notes one event. -/
def note (e : Event) : Logged ε Unit := ⟨[e], .ok ()⟩

/-- Lifts an outcome that notes nothing. -/
def ofExcept (outcome : Except ε α) : Logged ε α := ⟨[], outcome⟩

/-- First one computation, then, if it ended with a value, the next. -/
protected def bind (x : Logged ε α) (f : α → Logged ε β) : Logged ε β :=
  match x.outcome with
  | .error e => ⟨x.log, .error e⟩
  | .ok a => ⟨x.log ++ (f a).log, (f a).outcome⟩

/-- The computation under a digit limit: at the first event that is not noted it ends with this
error. -/
def within (limit : DigitLimit) (refused : ε) (x : Logged ε α) : Logged ε α :=
  if x.log.all limit.notes then x else ⟨x.log.takeWhile limit.notes, .error refused⟩

/-- Rewords the error. -/
def mapError (f : ε → δ) (x : Logged ε α) : Logged δ α := ⟨x.log, x.outcome.mapError f⟩

instance : Monad (Logged ε) where
  pure := Logged.pure
  bind := Logged.bind

/-! ## What each operation leaves -/

@[simp] theorem log_pure (a : α) : (pure a : Logged ε α).log = [] := rfl
@[simp] theorem outcome_pure (a : α) : (pure a : Logged ε α).outcome = .ok a := rfl
@[simp] theorem log_fail (e : ε) : (fail e : Logged ε α).log = [] := rfl
@[simp] theorem outcome_fail (e : ε) : (fail e : Logged ε α).outcome = .error e := rfl
@[simp] theorem log_note (e : Event) : (note e : Logged ε Unit).log = [e] := rfl
@[simp] theorem outcome_note (e : Event) : (note e : Logged ε Unit).outcome = .ok () := rfl
@[simp] theorem log_ofExcept (x : Except ε α) : (ofExcept x).log = [] := rfl
@[simp] theorem outcome_ofExcept (x : Except ε α) : (ofExcept x).outcome = x := rfl
@[simp] theorem log_mapError (f : ε → δ) (x : Logged ε α) : (x.mapError f).log = x.log := rfl
@[simp] theorem outcome_mapError (f : ε → δ) (x : Logged ε α) :
    (x.mapError f).outcome = x.outcome.mapError f := rfl

/-- Rewording errors keeps what is no error. -/
theorem mapError_eq_ok {f : ε → δ} {x : Except ε α} {a : α} :
    x.mapError f = .ok a ↔ x = .ok a := by
  constructor
  · intro h
    cases x with
    | error e => cases h
    | ok b => rw [Except.ok.inj h]
  · intro h
    rw [h]
    rfl

theorem mapError_of_error {x : Except ε α} {e : ε} (h : x = .error e) (f : ε → δ) :
    x.mapError f = .error (f e) := by
  rw [h]
  rfl

theorem within_of_notes {limit : DigitLimit} {x : Logged ε α}
    (h : ∀ e ∈ x.log, limit.notes e = true) (refused : ε) : x.within limit refused = x :=
  if_pos (List.all_eq_true.2 h)

/-- What is not refused has noted all its events. -/
theorem notes_of_within {limit : DigitLimit} {refused : ε} {x : Logged ε α} {a : α}
    (h : (x.within limit refused).outcome = .ok a) :
    x.outcome = .ok a ∧ ∀ e ∈ x.log, limit.notes e = true := by
  unfold within at h
  split at h
  · rename_i hlog
    exact ⟨h, List.all_eq_true.1 hlog⟩
  · cases h

@[simp] theorem fail_bind (e : ε) (f : α → Logged ε β) : (fail e >>= f) = fail e := rfl

theorem bind_of_ok {x : Logged ε α} {a : α} (h : x.outcome = .ok a) (f : α → Logged ε β) :
    (x >>= f) = ⟨x.log ++ (f a).log, (f a).outcome⟩ := by
  show Logged.bind x f = _
  simp [Logged.bind, h]

theorem bind_of_error {x : Logged ε α} {e : ε} (h : x.outcome = .error e) (f : α → Logged ε β) :
    (x >>= f) = ⟨x.log, .error e⟩ := by
  show Logged.bind x f = _
  simp [Logged.bind, h]

/-- The outcome of a sequence does not depend on what was noted. -/
theorem outcome_bind (x : Logged ε α) (f : α → Logged ε β) :
    (x >>= f).outcome = x.outcome.bind fun a => (f a).outcome := by
  show (Logged.bind x f).outcome = _
  unfold Logged.bind
  cases x.outcome <;> rfl

/-- A sequence ends with a value when both its parts do. -/
theorem outcome_bind_eq_ok {x : Logged ε α} {f : α → Logged ε β} {b : β} :
    (x >>= f).outcome = .ok b ↔ ∃ a, x.outcome = .ok a ∧ (f a).outcome = .ok b := by
  rw [outcome_bind]
  cases x.outcome with
  | error e => simp [Except.bind]
  | ok a => simp [Except.bind]

/-- A sequence ends with an error when its first part does, or else its second. -/
theorem outcome_bind_eq_error {x : Logged ε α} {f : α → Logged ε β} {e : ε} :
    (x >>= f).outcome = .error e ↔
      x.outcome = .error e ∨ ∃ a, x.outcome = .ok a ∧ (f a).outcome = .error e := by
  rw [outcome_bind]
  cases x.outcome with
  | error e => simp [Except.bind]
  | ok a => simp [Except.bind]

/-- What holds of all that both parts of a sequence note holds of all that it notes. -/
theorem forall_log_bind {P : Event → Prop} {x : Logged ε α} {f : α → Logged ε β}
    (hx : ∀ e ∈ x.log, P e) (hf : ∀ a, x.outcome = .ok a → ∀ e ∈ (f a).log, P e) :
    ∀ e ∈ (x >>= f).log, P e := by
  cases hout : x.outcome with
  | error e => rwa [bind_of_error hout]
  | ok a =>
    rw [bind_of_ok hout]
    exact List.forall_mem_append.2 ⟨hx, hf a hout⟩

private theorem id_map_logged (x : Logged ε α) : id <$> x = x := by
  rcases x with ⟨log, _ | a⟩
  · rfl
  · show Logged.mk (log ++ []) _ = _
    rw [List.append_nil]; rfl

private theorem bind_assoc_logged {γ : Type} (x : Logged ε α) (f : α → Logged ε β)
    (g : β → Logged ε γ) : (x >>= f >>= g) = x >>= fun a => f a >>= g := by
  rcases x with ⟨log, _ | a⟩
  · rfl
  · show Logged.bind (Logged.mk (log ++ (f a).log) (f a).outcome) g =
      Logged.mk (log ++ (Logged.bind (f a) g).log) (Logged.bind (f a) g).outcome
    unfold Logged.bind
    cases (f a).outcome with
    | error e => rfl
    | ok b => simp

instance : LawfulMonad (Logged ε) :=
  LawfulMonad.mk' _ id_map_logged (fun _ _ => rfl) bind_assoc_logged

end Logged

end CellMachine
