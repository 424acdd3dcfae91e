import CellMachine.Proofs.Machine.Rest

/-!
# CellMachine.Proofs.Machine.Session

**Sessions.** A caller drives a machine by requests: it feeds values, drains the output, or runs the
machine. A session is a list of requests, served one after another. `Serves` forgets the bound on
the runs: all of them came to rest.
-/

namespace CellMachine.Machine

/-- What a caller may ask of a machine. -/
inductive Request where
  /-- Take these values as further input. -/
  | feed (values : List Int)
  /-- Hand over the values emitted so far. -/
  | drain
  /-- Run until at rest. -/
  | run

/-- What a machine answers. -/
inductive Answer where
  /-- The values are queued. -/
  | fed
  /-- These values were emitted since the last drain. -/
  | drained (values : List Int)
  /-- The machine came to rest like this. -/
  | ran (outcome : Except Fault Status)

/-- Serves one request, a run within a bound. -/
def ask (fuel : Nat) (m : Machine) : Request → Option (Answer × Machine)
  | .feed values => some (.fed, m.feed values)
  | .drain => some (.drained m.drain.1, m.drain.2)
  | .run => (m.run fuel).map fun r => (.ran r.outcome, r.machine)

/-- Serves the requests of a session in order. -/
def serve (fuel : Nat) (m : Machine) : List Request → Option (List Answer × Machine)
  | [] => some ([], m)
  | q :: session => do
    let (answer, next) ← m.ask fuel q
    let (answers, last) ← next.serve fuel session
    return (answer :: answers, last)

/-- A session is served within some bound. -/
def Serves (m : Machine) (session : List Request) (answers : List Answer) (last : Machine) :
    Prop :=
  ∃ fuel, m.serve fuel session = some (answers, last)

/-- The values a request feeds. -/
def Request.values : Request → List Int
  | .feed values => values
  | .drain | .run => []

/-- The values an answer hands over. -/
def Answer.values : Answer → List Int
  | .drained values => values
  | .fed | .ran _ => []

/-- How a machine came to rest, if the answer is to a run. -/
def Answer.outcome? : Answer → Option (Except Fault Status)
  | .ran outcome => some outcome
  | .fed | .drained _ => none

/-- All values fed in a session, in order. -/
def fed (session : List Request) : List Int := session.flatMap Request.values

/-- All values drained in a session, in order. -/
def drained (answers : List Answer) : List Int := answers.flatMap Answer.values

/-- How the runs of a session came to rest, in order. -/
def outcomes (answers : List Answer) : List (Except Fault Status) :=
  answers.filterMap Answer.outcome?

variable {m next last : Machine} {session : List Request} {answers : List Answer}
  {outcome : Except Fault Status}

@[simp] theorem fed_nil : fed [] = [] := rfl
@[simp] theorem fed_cons (q : Request) (session : List Request) :
    fed (q :: session) = q.values ++ fed session := rfl

theorem drained_concat (answers : List Answer) (answer : Answer) :
    drained (answers ++ [answer]) = drained answers ++ answer.values := by
  simp [drained]

theorem outcomes_concat (answers : List Answer) (answer : Answer) :
    outcomes (answers ++ [answer]) = outcomes answers ++ answer.outcome?.toList := by
  cases answer <;> simp [outcomes, Answer.outcome?]

/-! ### The bound of a session does not matter -/

theorem ask_mono {fuel fuel' : Nat} {q : Request} {a : Answer × Machine}
    (h : m.ask fuel q = some a) (hle : fuel ≤ fuel') : m.ask fuel' q = some a := by
  cases q with
  | feed values => exact h
  | drain => exact h
  | run =>
      obtain ⟨r, hr, rfl⟩ := Option.map_eq_some_iff.1 h
      rw [ask, run_mono hr hle]
      rfl

theorem serve_mono {fuel fuel' : Nat} {a : List Answer × Machine}
    (h : m.serve fuel session = some a) (hle : fuel ≤ fuel') :
    m.serve fuel' session = some a := by
  induction session generalizing m a with
  | nil => exact h
  | cons q session ih =>
      simp only [serve, Option.bind_eq_bind, Option.bind_eq_some_iff] at h ⊢
      obtain ⟨⟨answer, next⟩, hask, ⟨answers, last⟩, hserve, hret⟩ := h
      exact ⟨_, ask_mono hask hle, _, ih hserve, hret⟩

/-! ### Building sessions -/

theorem Serves.nil : Serves m [] [] m := ⟨0, rfl⟩

theorem Serves.feed {values : List Int} (h : Serves (m.feed values) session answers last) :
    Serves m (.feed values :: session) (.fed :: answers) last := by
  obtain ⟨fuel, h⟩ := h
  exact ⟨fuel, by simp [serve, ask, h]⟩

theorem Serves.drain (h : Serves m.drain.2 session answers last) :
    Serves m (.drain :: session) (.drained m.output.queue :: answers) last := by
  obtain ⟨fuel, h⟩ := h
  rw [drain_snd] at h
  exact ⟨fuel, by simp [serve, ask, h]⟩

theorem Serves.run (hrun : RunsTo m next outcome) (h : Serves next session answers last) :
    Serves m (.run :: session) (.ran outcome :: answers) last := by
  obtain ⟨fuel, r, hr, rfl, rfl⟩ := hrun
  obtain ⟨fuel', h⟩ := h
  refine ⟨max fuel fuel', ?_⟩
  have hask := run_mono hr (Nat.le_max_left fuel fuel')
  have hserve := serve_mono h (Nat.le_max_right fuel fuel')
  simp [serve, ask, hask, hserve]

theorem Serves.append {session' : List Request} {answers' : List Answer}
    (h : Serves m session answers next) (h' : Serves next session' answers' last) :
    Serves m (session ++ session') (answers ++ answers') last := by
  obtain ⟨fuel, h⟩ := h
  obtain ⟨fuel', h'⟩ := h'
  -- one bound serves both parts
  refine ⟨max fuel fuel', ?_⟩
  have hserve' := serve_mono h' (Nat.le_max_right fuel fuel')
  replace h := serve_mono h (Nat.le_max_left fuel fuel')
  generalize max fuel fuel' = bound at h hserve' ⊢
  induction session generalizing m answers with
  | nil =>
      obtain ⟨rfl, rfl⟩ : answers = [] ∧ next = m := by simpa [serve, eq_comm] using h
      exact hserve'
  | cons q session ih =>
      simp only [serve, Option.bind_eq_bind, Option.bind_eq_some_iff, List.cons_append] at h ⊢
      obtain ⟨⟨answer, mid⟩, hask, ⟨answers₁, last₁⟩, hserve, hret⟩ := h
      obtain ⟨rfl, rfl⟩ : answer :: answers₁ = answers ∧ last₁ = next := by simpa using hret
      exact ⟨_, hask, _, ih hserve, rfl⟩

/-! ### What sessions preserve -/

/-- What no request breaks, no session breaks. -/
theorem Serves.preserves {P : Machine → Prop} (h : Serves m session answers last)
    (hfeed : ∀ m values, P m → P (m.feed values)) (hdrain : ∀ m : Machine, P m → P m.drain.2)
    (hrun : ∀ m next outcome, RunsTo m next outcome → P m → P next) (hm : P m) : P last := by
  obtain ⟨fuel, h⟩ := h
  induction session generalizing m answers with
  | nil =>
      obtain ⟨-, rfl⟩ := Prod.mk.inj (Option.some.inj h)
      exact hm
  | cons q session ih =>
      simp only [serve, Option.bind_eq_bind, Option.bind_eq_some_iff] at h
      obtain ⟨⟨answer, next⟩, hask, ⟨answers₁, last₁⟩, hserve, hret⟩ := h
      obtain ⟨-, rfl⟩ := Prod.mk.inj (Option.some.inj hret)
      refine ih ?_ hserve
      cases q with
      | feed values =>
          obtain ⟨-, rfl⟩ := Prod.mk.inj (Option.some.inj hask)
          exact hfeed m values hm
      | drain =>
          obtain ⟨-, rfl⟩ := Prod.mk.inj (Option.some.inj hask)
          exact hdrain m hm
      | run =>
          obtain ⟨r, hr, heq⟩ := Option.map_eq_some_iff.1 hask
          obtain ⟨-, rfl⟩ := Prod.mk.inj heq
          exact hrun m r.machine r.outcome (.of_run hr) hm

/-- The refusal that a run of a faulted machine reports. -/
def refusal (m : Machine) : Fault := { cause := .resumedAfterFault, ip := some m.ip }

end CellMachine.Machine
