import CellMachine.Proofs.Network.Basic

/-!
# CellMachine.Proofs.Network.Confluence

**The order of steps does not matter.** Two different steps that are possible at the same moment
can be taken in either order, with the same result: a station does not see how much more waits
behind its input or what was taken from its output, and no two stations deliver to the same input.
So any two schedules can be continued to a common network (`Reaches.join`).

For a station that has stopped this fixes all it ever emitted (`Reaches.emitted_unique`), and a
network in which nothing can happen decides which stations ever stop (`Reaches.halts`).
-/

namespace CellMachine.Network

open Relation

variable {net a b : List Station} {s s' t : Station} {i j : Nat}

/-! ### Changes at two places -/

theorem set_modify {f : Station → Station} (hi : net[i]? = some s) :
    (net.set i s').modify j f = (net.modify j f).set i (if i = j then f s' else s') := by
  have hlt := lt_length hi
  apply List.ext_getElem?
  intro k
  rw [List.getElem?_modify, List.getElem?_set, List.getElem?_set, List.getElem?_modify]
  by_cases hik : i = k
  · subst hik
    by_cases hij : j = i
    · simp [hij, hlt]
    · simp [hij, hlt, Ne.symm hij]
  · simp [hik]

/-- An instruction commutes with a change somewhere in the network that it does not notice. -/
theorem Executes.modify {f : Station → Station} (h : Executes i net a)
    (hf : ∀ s s', net[j]? = some s → s.execute? = some s' → (f s).execute? = some (f s')) :
    Executes i (net.modify j f) (a.modify j f) := by
  obtain ⟨s, s', hs, hexec, rfl⟩ := h
  refine ⟨if i = j then f s else s, if i = j then f s' else s', ?_, ?_, set_modify hs⟩
  · rw [List.getElem?_modify, hs]
    by_cases hij : i = j
    · simp [hij]
    · simp [hij, Ne.symm hij]
  · by_cases hij : i = j
    · subst hij
      simpa using hf s s' hs hexec
    · simpa [hij] using hexec

theorem Executes.forward {value : Int} (h : Executes i net a) (hfront : Front net j value) :
    Executes i (forward net j value) (forward a j value) := by
  have hship : Executes i (net.modify j Station.ship) (a.modify j Station.ship) := by
    refine h.modify fun s s' hs hexec => Station.execute?_ship hexec ?_
    obtain ⟨t, rest, ht, hq⟩ := hfront
    obtain rfl := Option.some.inj (ht.symm.trans hs)
    simp [hq]
  rw [Network.forward, Network.forward, follower_congr h.length]
  exact hship.modify fun s s' _ hexec => Station.execute?_receive hexec [value]

/-- Deliveries from two stations go to two stations, in either order. -/
theorem forward_comm (hi : i < net.length) (hj : j < net.length) (hij : i ≠ j) (v w : Int) :
    forward (forward net i v) j w = forward (forward net j w) i v := by
  have hinj : follower net i ≠ follower net j := fun h => hij (follower_inj hi hj h)
  have hcross : ∀ (l : List Station) (k m : Nat) (x : Int),
      (l.modify k (·.receive [x])).modify m Station.ship =
        (l.modify m Station.ship).modify k (·.receive [x]) :=
    fun l k m x => modify_comm (f := (·.receive [x])) (g := Station.ship) (fun _ _ => rfl) l
  have hships : (net.modify i Station.ship).modify j Station.ship =
      (net.modify j Station.ship).modify i Station.ship :=
    modify_comm (fun h => absurd h hij) net
  calc forward (forward net i v) j w
      = (((net.modify i Station.ship).modify (follower net i) (·.receive [v])).modify j
          Station.ship).modify (follower net j) (·.receive [w]) := by
        rw [Network.forward, follower_congr (length_forward net i v), Network.forward]
    _ = (((net.modify j Station.ship).modify i Station.ship).modify (follower net j)
          (·.receive [w])).modify (follower net i) (·.receive [v]) := by
        rw [hcross, hships]
        exact modify_comm (fun h => absurd h hinj) _
    _ = forward (forward net j w) i v := by
        rw [← hcross, Network.forward, follower_congr (length_forward net j w), Network.forward]

/-! ### What stays in front -/

theorem Executes.front {value : Int} (h : Executes i net a) (hfront : Front net j value) :
    Front a j value := by
  obtain ⟨t, rest, ht, hq⟩ := hfront
  obtain ⟨t', ht'⟩ : ∃ t', a[j]? = some t' :=
    ⟨_, List.getElem?_eq_getElem (h.length ▸ lt_length ht)⟩
  obtain ⟨u, hu, -, values, -, hout⟩ := h.station ht'
  obtain rfl := Option.some.inj (ht.symm.trans hu)
  exact ⟨t', rest ++ values, ht', by rw [hout, hq]; rfl⟩

theorem Delivers.front {value : Int} (h : Delivers i net a) (hij : i ≠ j)
    (hfront : Front net j value) : Front a j value := by
  obtain ⟨t, rest, ht, hq⟩ := hfront
  obtain ⟨t', ht'⟩ : ∃ t', a[j]? = some t' :=
    ⟨_, List.getElem?_eq_getElem (h.length ▸ lt_length ht)⟩
  obtain ⟨_, hstation⟩ := h.station
  obtain ⟨u, hu, -, -, hout⟩ := hstation ht'
  obtain rfl := Option.some.inj (ht.symm.trans hu)
  rw [if_neg hij, List.nil_append] at hout
  exact ⟨t', rest, ht', hout ▸ hq⟩

/-! ### Two steps at the same moment -/

theorem Executes.unique (ha : Executes i net a) (hb : Executes i net b) : a = b := by
  obtain ⟨s, s', hs, hexec, rfl⟩ := ha
  obtain ⟨t, t', ht, hexec', rfl⟩ := hb
  obtain rfl := Option.some.inj (hs.symm.trans ht)
  rw [Option.some.inj (hexec.symm.trans hexec')]

theorem Delivers.unique (ha : Delivers i net a) (hb : Delivers i net b) : a = b := by
  obtain ⟨value, ⟨s, rest, hs, hq⟩, rfl⟩ := ha
  obtain ⟨value', ⟨t, rest', ht, hq'⟩, rfl⟩ := hb
  obtain rfl := Option.some.inj (hs.symm.trans ht)
  rw [(List.cons.inj (hq.symm.trans hq')).1]

theorem Executes.comm (ha : Executes i net a) (hb : Executes j net b) (hij : i ≠ j) :
    ∃ c, Executes j a c ∧ Executes i b c := by
  obtain ⟨s, s', hs, hexec, rfl⟩ := ha
  obtain ⟨t, t', ht, hexec', rfl⟩ := hb
  refine ⟨(net.set i s').set j t', ⟨t, t', ?_, hexec', rfl⟩, s, s', ?_, hexec, ?_⟩
  · rwa [List.getElem?_set_ne hij]
  · rwa [List.getElem?_set_ne (Ne.symm hij)]
  · exact List.set_comm _ _ hij

theorem Executes.comm_delivers (ha : Executes i net a) (hb : Delivers j net b) :
    ∃ c, Delivers j a c ∧ Executes i b c := by
  -- even if the station delivers or is delivered to, it does not notice
  obtain ⟨value, hfront, rfl⟩ := hb
  exact ⟨_, ⟨value, ha.front hfront, rfl⟩, ha.forward hfront⟩

theorem Delivers.comm (ha : Delivers i net a) (hb : Delivers j net b) (hij : i ≠ j) :
    ∃ c, Delivers j a c ∧ Delivers i b c := by
  obtain ⟨v, hv, rfl⟩ := id ha
  obtain ⟨w, hw, rfl⟩ := id hb
  exact ⟨_, ⟨w, ha.front hij hw, rfl⟩, v, hb.front hij.symm hv, forward_comm hv.lt hw.lt hij v w⟩

/-- Two steps from the same network lead to a common one with one more step each, unless they are
the same step. -/
theorem Step.diamond (ha : Step net a) (hb : Step net b) :
    a = b ∨ ∃ c, Step a c ∧ Step b c := by
  cases ha with
  | @execute i ha =>
      cases hb with
      | @execute j hb =>
          by_cases hij : i = j
          · subst hij
            exact .inl (ha.unique hb)
          · obtain ⟨c, hac, hbc⟩ := ha.comm hb hij
            exact .inr ⟨c, .execute hac, .execute hbc⟩
      | deliver hb =>
          obtain ⟨c, hac, hbc⟩ := ha.comm_delivers hb
          exact .inr ⟨c, .deliver hac, .execute hbc⟩
  | @deliver i ha =>
      cases hb with
      | execute hb =>
          obtain ⟨c, hbc, hac⟩ := hb.comm_delivers ha
          exact .inr ⟨c, .execute hac, .deliver hbc⟩
      | @deliver j hb =>
          by_cases hij : i = j
          · subst hij
            exact .inl (ha.unique hb)
          · obtain ⟨c, hac, hbc⟩ := ha.comm hb hij
            exact .inr ⟨c, .deliver hac, .deliver hbc⟩

/-! ### Two schedules -/

/-- Any two schedules can be continued to a common network. -/
theorem Reaches.join (ha : Reaches net a) (hb : Reaches net b) :
    ∃ c, Reaches a c ∧ Reaches b c := by
  refine church_rosser ?_ ha hb
  intro a b c hab hac
  obtain rfl | ⟨d, hbd, hcd⟩ := hab.diamond hac
  · exact ⟨b, .refl, .refl⟩
  · exact ⟨d, .single hbd, .single hcd⟩

/-- Whenever a station has stopped, under whatever schedule, it has emitted the same values. -/
theorem Reaches.emitted_unique (ha : Reaches net a) (hb : Reaches net b) (hs : a[i]? = some s)
    (ht : b[i]? = some t) (hshalt : s.machine.status = .halted)
    (hthalt : t.machine.status = .halted) : s.emitted = t.emitted := by
  obtain ⟨c, hac, hbc⟩ := ha.join hb
  obtain ⟨u, hu, -, hsu⟩ := hac.halted hs hshalt
  obtain ⟨u', hu', -, htu⟩ := hbc.halted ht hthalt
  obtain rfl := Option.some.inj (hu.symm.trans hu')
  rw [← hsu, htu]

/-- Nothing can happen in the network. -/
def Still (net : List Station) : Prop := ∀ net', ¬Step net net'

theorem Still.eq (h : Still net) (hreach : Reaches net a) : a = net := by
  cases ReflTransGen.cases_head hreach with
  | inl heq => exact heq.symm
  | inr hstep =>
      obtain ⟨c, hc, -⟩ := hstep
      exact absurd hc (h c)

/-- A network is still when every station has stopped, has faulted or waits, and no output does. -/
theorem still_of (hexec : ∀ s ∈ net, s.execute? = none)
    (hout : ∀ s ∈ net, s.machine.output.queue = []) : Still net := by
  rintro net' (⟨s, s', hs, hs', -⟩ | ⟨value, ⟨s, rest, hs, hq⟩, -⟩)
  · rw [hexec s (List.mem_of_getElem? hs)] at hs'
    cases hs'
  · rw [hout s (List.mem_of_getElem? hs)] at hq
    cases hq

/-- Where some schedule ends in a still network, a station that ever stops has stopped there. -/
theorem Reaches.halts (ha : Reaches net a) (hstill : Still a) (hb : Reaches net b)
    (ht : b[i]? = some t) (hhalt : t.machine.status = .halted) :
    ∃ s, a[i]? = some s ∧ s.machine.status = .halted := by
  obtain ⟨c, hac, hbc⟩ := ha.join hb
  obtain rfl := hstill.eq hac
  obtain ⟨s, hs, hshalt, -⟩ := hbc.halted ht hhalt
  exact ⟨s, hs, hshalt⟩

end CellMachine.Network
