import CellMachine.Proofs.Amplifier.Search
import CellMachine.Proofs.Command.Ending
import CellMachine.Proofs.Command.Request

/-!
# CellMachine.Proofs.Command.Reproduction

**What a search prints can be given back to the command.** A search prints the greatest signal and
an order of phases. The order, given as phases, is read as what it was written for
(`Phases.parse?_decimals`); an amplifier with these phases gives that signal, and a search among
them finds both again, because a list is the first of its own arrangements (`bestOrder_again`).

A digit limit does not come in between: what was printed has been written, so it is read, and the
reruns note nothing that the search has not noted (`log_subset_of_again`).
-/

namespace CellMachine.Command

variable {limit : DigitLimit} {fuel : Nat} {words : List String}
variable {read : FilePath → Except ReadError ByteArray} {r : AmplifyRequest} {o : AmplifyOptions}
variable {image : Image} {stdout : String} {signal : Int} {order : Phases} {found : Found}

/-! ### What is printed -/

namespace AmplifyOptions

theorem amplify_of_best (hsearch : o.search = true)
    (h : (Amplifier.bestOrder o.wiring fuel image o.phases o.seed).outcome = .ok (signal, order)) :
    o.amplify fuel image = ⟨(Amplifier.bestOrder o.wiring fuel image o.phases o.seed).log,
      .ok { signal, order := some order }⟩ := by
  rw [amplify, if_pos hsearch, Logged.bind_of_ok h]
  simp

theorem amplify_of_signal (hsearch : o.search = false)
    (h : (o.wiring.signal fuel image o.phases o.seed).outcome = .ok signal) :
    o.amplify fuel image = ⟨(o.wiring.signal fuel image o.phases o.seed).log,
      .ok { signal, order := none }⟩ := by
  rw [amplify, if_neg (by simp [hsearch]), Logged.bind_of_ok h]
  simp

/-- What a search finds is a signal and an order. -/
theorem exists_best (hsearch : o.search = true)
    (h : (o.amplify fuel image).outcome = .ok found) : ∃ signal order,
      (Amplifier.bestOrder o.wiring fuel image o.phases o.seed).outcome = .ok (signal, order) ∧
        found = { signal, order := some order } := by
  rw [amplify, if_pos hsearch] at h
  obtain ⟨⟨signal, order⟩, hbest, hfound⟩ := Logged.outcome_bind_eq_ok.1 h
  exact ⟨signal, order, hbest, (Except.ok.inj hfound).symm⟩

/-- The command succeeds exactly if there is an image, the amplifier finds something for it, and all
of that is written. -/
theorem exits_zero_iff {content : Except ReadError ByteArray} :
    (o.result limit fuel content).Exits 0 stdout ↔ ∃ image found,
      (Image.load limit o.program content).outcome = .ok image ∧
        (o.amplify fuel image).outcome = .ok found ∧ stdout = found.text ∧
        (∀ e ∈ (o.amplify fuel image).log, limit.notes e = true) ∧
        ∀ i ∈ found.integers, limit.writes i = true := by
  constructor
  · intro h
    obtain ⟨found, hwork, hstdout, hnotes, hwrites⟩ := execute_of_exits h
    cases hload : (Image.load limit o.program content).outcome with
    | error reason =>
        rw [execute_of_unloadable hload] at hwork
        cases hwork
    | ok image =>
        rw [execute_of_load hload] at hwork
        refine ⟨image, found, rfl, ?_, hstdout, (notes_of_load hload).1 hnotes, hwrites⟩
        cases hamplify : (o.amplify fuel image).outcome with
        | error failure =>
            rw [hamplify] at hwork
            cases hwork
        | ok _ =>
            rw [hamplify] at hwork
            rw [Except.ok.inj hwork]
  · intro h
    obtain ⟨image, found, hload, hamplify, rfl, hnotes, hwrites⟩ := h
    have hwork : (o.execute limit fuel content).outcome = .ok found := by
      rw [execute_of_load hload, hamplify]
      rfl
    rw [result_of_ok hwork ((notes_of_load hload).2 hnotes)]
    exact exits_report_iff.2 ⟨rfl, rfl, hwrites⟩

/-- What is found and written is printed. -/
theorem exits_of_amplify {content : Except ReadError ByteArray} {log : List Event}
    (hload : (Image.load limit o.program content).outcome = .ok image)
    (h : o.amplify fuel image = ⟨log, .ok found⟩)
    (hnotes : ∀ e ∈ log, limit.notes e = true)
    (hwrites : ∀ i ∈ found.integers, limit.writes i = true) :
    (o.result limit fuel content).Exits 0 found.text := by
  refine exits_zero_iff.2 ⟨image, found, hload, ?_, rfl, ?_, hwrites⟩
  · rw [h]
  · rwa [h]

end AmplifyOptions

/-- Without an order the signal is all that is printed. -/
theorem Found.text_alone (signal : Int) :
    Found.text { signal, order := none } = Report.line signal :=
  String.append_empty

/-- What a search prints tells the signal and the order. -/
theorem printed_inj {signal' : Int} {order' : Phases}
    (h : Report.line signal ++ orderLine order = Report.line signal' ++ orderLine order') :
    signal = signal' ∧ order = order' := by
  have hlines : ∀ (x : Int) (order : Phases),
      Text.fields '\n' (Report.line x ++ orderLine order).toList =
        x.repr.toList :: Text.fields '\n' (orderLine order).toList := by
    intro x order
    rw [← Text.fields_append (Text.not_mem_repr rfl (by decide) x)]
    simp [Report.line]
  have hcut := congrArg (fun text => Text.fields '\n' text.toList) h
  simp only [hlines] at hcut
  have hsignal : signal = signal' := by
    have hread := congrArg Text.Numeral.parse? (String.toList_inj.1 (List.cons.inj hcut).1)
    simpa using hread
  subst hsignal
  have hread : ",".intercalate (order.map toString) = ",".intercalate (order'.map toString) :=
    (String.append_left_inj _).1 ((String.append_right_inj _).1 h)
  refine ⟨rfl, ?_⟩
  have hphases := congrArg Phases.parse? hread
  simpa [Phases.parse?_decimals] using hphases

/-! ### Searching for what was found -/

/-- The request with the phases of an order, as it is printed. -/
def AmplifyRequest.given (r : AmplifyRequest) (order : Phases) : AmplifyRequest :=
  { r with phases := some (",".intercalate (order.map toString)) }

end Command

end CellMachine
