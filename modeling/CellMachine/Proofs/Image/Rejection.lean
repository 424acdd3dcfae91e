import CellMachine.Proofs.Image.Spacing
import CellMachine.Proofs.Text.Position

/-!
# CellMachine.Proofs.Image.Rejection

**Where a text that is no program is refused.** `GivesUp t front expected` says, without reading
anything, behind which part `front` of a text `t` reading stops and what is missing there: an
integer, or the end of the text behind the longest listing of integers that the text begins with.
Reading takes as much as it can at every point and never goes back; that no other way to read the
text gets further is `Listing.reads`.
-/

namespace CellMachine.Image

variable {s t front rest before number listing : List Char} {v : Int} {expected : Expected}

/-! ### What a text begins with -/

/-- Integers with commas between them, blanks in front of each and in front of each comma. -/
inductive Listing : List Char → Prop where
  /-- The last integer. -/
  | last {before number : List Char} {value : Int} :
      Blanks before → Written number value → Listing (before ++ number)
  /-- An integer, a comma, and more. -/
  | more {before number after rest : List Char} {value : Int} :
      Blanks before → Written number value → Blanks after → Listing rest →
      Listing (before ++ (number ++ (after ++ ',' :: rest)))

/-- The longest listing that a text begins with. -/
structure Longest (t listing : List Char) : Prop where
  isListing : Listing listing
  starts : listing <+: t
  greatest : ∀ other, Listing other → other <+: t → other.length ≤ listing.length

/-- The first character, if there is one, is no blank. -/
def Solid (s : List Char) : Prop := ∀ c, s.head? = some c → c ∉ [' ', '\t', '\n', '\r']

/-- Reading a text stops behind its part `front`, where it should have held something else. -/
inductive GivesUp (t : List Char) : List Char → Expected → Prop where
  /-- No integer begins behind the blanks at the front. -/
  | value {front rest : List Char} : t = front ++ rest → Blanks front → Solid rest →
      (∀ number v, Written number v → ¬number <+: rest) → GivesUp t front .value
  /-- There is more behind the longest listing at the front and the blanks that follow it. -/
  | endOfText {listing between rest : List Char} : Longest t listing →
      t = listing ++ (between ++ rest) → Blanks between → Solid rest → rest ≠ [] →
      GivesUp t (listing ++ between) .endOfText

theorem Longest.unique {listing' : List Char} (h : Longest t listing) (h' : Longest t listing') :
    listing = listing' := by
  have hle := h.greatest listing' h'.isListing h'.starts
  have hge := h'.greatest listing h.isListing h.starts
  exact (List.prefix_of_prefix_length_le h.starts h'.starts hge).eq_of_length (by omega)

/-! ### Blanks -/

theorem solid_skipBlanks (s : List Char) : Solid (skipBlanks s) := by
  intro c hc hblank
  have hstop := List.head?_dropWhile_not isBlank s
  rw [← skipBlanks, hc] at hstop
  simp [isBlank_iff.2 hblank] at hstop

theorem skipBlanks_of_solid (h : Solid s) : skipBlanks s = s := by
  cases s with
  | nil => rfl
  | cons c s => exact List.dropWhile_cons_of_neg fun hc => h c rfl (isBlank_iff.1 hc)

/-! ### Reading a listing -/

theorem Digits.append {more : List Char} (h : Digits s) (hmore : ∀ c ∈ more, c.isDigit = true) :
    Digits (s ++ more) := by
  refine ⟨by simp [h.1], List.forall_mem_append.2 ⟨h.2, ?_⟩⟩
  intro c hc
  exact Char.isDigit_iff_toNat.1 (hmore c hc)

/-- More digits behind a written integer make up a written integer with it. -/
theorem Written.append {more : List Char} (h : Written number v)
    (hmore : ∀ c ∈ more, c.isDigit = true) : ∃ w, Written (number ++ more) w := by
  cases h with
  | bare hs => exact ⟨_, .bare (hs.append hmore)⟩
  | plus hs => exact ⟨_, .plus (hs.append hmore)⟩
  | minus hs => exact ⟨_, .minus (hs.append hmore)⟩

/-- A text that begins with a written integer begins with one that is read. -/
theorem Written.reads (h : Written number v) (tail : List Char) :
    ∃ w rest, value? (number ++ tail) = some (w, rest) ∧ rest.length ≤ tail.length := by
  have hdigits : ∀ c ∈ tail.takeWhile Char.isDigit, c.isDigit = true := fun c hc =>
    List.all_eq_true.1 List.all_takeWhile c hc
  obtain ⟨w, hw⟩ := h.append hdigits
  have hstop : ∀ c, (tail.dropWhile Char.isDigit).head? = some c → c.isDigit = false := by
    intro c hc
    have hhead := List.head?_dropWhile_not Char.isDigit tail
    rw [hc] at hhead
    simpa using hhead
  have hvalue := value?_written hw hstop
  rw [List.append_assoc, List.takeWhile_append_dropWhile] at hvalue
  exact ⟨w, _, hvalue, (List.dropWhile_sublist _).length_le⟩

theorem items_of_item? (h : item? s = some (v, rest)) :
    items s = (v :: (items rest).1, (items rest).2) := by
  rw [items]
  split <;> simp_all

theorem length_items_le (s : List Char) : (items s).2.length ≤ s.length := by
  fun_induction items s with
  | case1 s hnone => exact Nat.le_refl _
  | case2 s next tail hitem values last heq ih =>
      rw [heq] at ih
      exact Nat.le_trans ih (Nat.le_of_lt (length_of_item? hitem))

/-- Reading a text that begins with a listing takes at least the listing. -/
theorem Listing.reads (h : Listing listing) (tail : List Char) :
    ∃ v rest, value? (skipBlanks (listing ++ tail)) = some (v, rest) ∧
      (items rest).2.length ≤ tail.length := by
  induction h with
  | @last before number v hbefore hnumber =>
      obtain ⟨w, rest, hvalue, hle⟩ := hnumber.reads tail
      refine ⟨w, rest, ?_, Nat.le_trans (length_items_le rest) hle⟩
      rw [List.append_assoc, skipBlanks_append hbefore, skipBlanks_written hnumber, hvalue]
  | @more before number after listing v hbefore hnumber hafter _ ih =>
      obtain ⟨w, rest, hvalue, hle⟩ := ih
      refine ⟨v, after ++ ',' :: (listing ++ tail), ?_, ?_⟩
      · simp only [List.append_assoc, List.cons_append]
        rw [skipBlanks_append hbefore, skipBlanks_written hnumber]
        exact value?_written hnumber (not_isDigit_head hafter (.inr ⟨_, rfl⟩))
      · rw [items_of_item? ((item?_comma hafter _).trans hvalue)]
        exact hle

/-- What was read is a listing. -/
theorem listing_of_items (hbefore : Blanks before) (hnumber : Written number v) (s : List Char) :
    ∃ listing, Listing listing ∧ before ++ (number ++ s) = listing ++ (items s).2 := by
  -- the induction is on the items; what stands before the first one is any written integer
  fun_induction items s generalizing before number v with
  | case1 s hnone => exact ⟨before ++ number, .last hbefore hnumber, by rw [List.append_assoc]⟩
  | case2 s next tail hitem values last heq ih =>
      obtain ⟨after, before', number', hafter, hbefore', hnumber', rfl⟩ := written_of_item? hitem
      obtain ⟨listing, hlisting, hrest⟩ := ih hbefore' hnumber'
      rw [heq] at hrest
      refine ⟨_, .more hbefore hnumber hafter hlisting, ?_⟩
      rw [hrest]
      simp

/-- Reading goes as far as the longest listing at the front of a text. -/
theorem longest_of_items (h : value? (skipBlanks s) = some (v, rest)) :
    ∃ listing, Longest s listing ∧ s = listing ++ (items rest).2 := by
  obtain ⟨before, hbefore, hs⟩ := exists_blanks s
  obtain ⟨number, hnumber, hnext⟩ := written_of_value? h
  obtain ⟨listing, hlisting, hwhole⟩ := listing_of_items hbefore hnumber rest
  rw [← hnext, ← hs] at hwhole
  refine ⟨listing, ⟨hlisting, ⟨_, hwhole.symm⟩, ?_⟩, hwhole⟩
  rintro other hother ⟨tail, rfl⟩
  obtain ⟨w, rest', hvalue, hle⟩ := hother.reads tail
  obtain ⟨rfl, rfl⟩ := Prod.mk.inj (Option.some.inj (h.symm.trans hvalue))
  have hlength := congrArg List.length hwhole
  simp only [List.length_append] at hlength
  omega

/-! ### Reading a text that is no program -/

theorem parseExpanded_of_no_value (hs : s = front ++ rest) (hfront : Blanks front)
    (hrest : Solid rest) (hnone : value? rest = none) :
    parseExpanded s = .error ⟨.value, .after front⟩ := by
  have hskip : skipBlanks s = rest := by
    rw [hs, skipBlanks_append hfront, skipBlanks_of_solid hrest]
  simp only [parseExpanded, hskip, hnone]
  rw [hs, Text.Position.ofRest_append]

theorem parseExpanded_of_rest {between more : List Char}
    (hvalue : value? (skipBlanks s) = some (v, rest)) (hs : s = listing ++ (items rest).2)
    (hitems : (items rest).2 = between ++ more) (hbetween : Blanks between) (hmore : Solid more)
    (hne : more ≠ []) : parseExpanded s = .error ⟨.endOfText, .after (listing ++ between)⟩ := by
  have hskip : skipBlanks (items rest).2 = more := by
    rw [hitems, skipBlanks_append hbetween, skipBlanks_of_solid hmore]
  simp only [parseExpanded, hvalue, hskip]
  rw [hs, hitems, ← List.append_assoc, Text.Position.ofRest_append]

/-- Reading ends where it has to give up, or the text is a program. -/
theorem givesUp_or_program (s : List Char) :
    (∃ expected front, GivesUp s front expected ∧
        parseExpanded s = .error ⟨expected, .after front⟩) ∨
      ∃ xs, parseExpanded s = .ok xs := by
  cases hvalue : value? (skipBlanks s) with
  | none =>
      obtain ⟨before, hbefore, hs⟩ := exists_blanks s
      have hsolid := solid_skipBlanks s
      refine .inl ⟨.value, before, .value hs hbefore hsolid ?_,
        parseExpanded_of_no_value hs hbefore hsolid hvalue⟩
      intro number v hnumber hstarts
      obtain ⟨tail, htail⟩ := hstarts
      obtain ⟨w, rest, hread, -⟩ := hnumber.reads tail
      rw [htail, hvalue] at hread
      cases hread
  | some p =>
      obtain ⟨v, rest⟩ := p
      obtain ⟨listing, hlongest, hs⟩ := longest_of_items hvalue
      obtain ⟨between, hbetween, hitems⟩ := exists_blanks (items rest).2
      have hsolid := solid_skipBlanks (items rest).2
      by_cases hne : skipBlanks (items rest).2 = []
      · refine .inr ⟨v :: (items rest).1, ?_⟩
        simp only [parseExpanded, hvalue, hne]
      · refine .inl ⟨.endOfText, _, .endOfText hlongest ?_ hbetween hsolid hne,
          parseExpanded_of_rest hvalue hs hitems hbetween hsolid hne⟩
        rw [← hitems, ← hs]

theorem parseExpanded_of_givesUp (h : GivesUp s front expected) :
    parseExpanded s = .error ⟨expected, .after front⟩ := by
  cases h with
  | value hs hfront hsolid hnone =>
      refine parseExpanded_of_no_value hs hfront hsolid ?_
      cases hvalue : value? _ with
      | none => rfl
      | some p =>
          obtain ⟨number, hnumber, hrest⟩ := written_of_value? hvalue
          exact absurd ⟨_, hrest.symm⟩ (hnone number _ hnumber)
  | @endOfText listing between more hlongest hs hbetween hsolid hne =>
      obtain ⟨v, rest, hvalue, -⟩ := hlongest.isListing.reads (between ++ more)
      rw [← hs] at hvalue
      -- what is read is the longest listing too, so the same is left behind it
      obtain ⟨listing', hlongest', hs'⟩ := longest_of_items hvalue
      obtain rfl := hlongest'.unique hlongest
      have hitems := List.append_cancel_left (hs'.symm.trans hs)
      exact parseExpanded_of_rest hvalue hs' hitems hbetween hsolid hne

/-! ### Places in the text itself -/

theorem GivesUp.solid (h : GivesUp t front expected) :
    ∃ rest, t = front ++ rest ∧ Solid rest := by
  cases h with
  | value ht _ hsolid _ => exact ⟨_, ht, hsolid⟩
  | endOfText _ ht _ hsolid _ => exact ⟨_, by rw [ht, List.append_assoc], hsolid⟩

/-- A place in a text with its tabs expanded is a place in the text itself: the same character
stands there, in the same line, and in the same column if no tab is in front of it in that line. -/
structure Origin (s front origin behind : List Char) : Prop where
  split : s = origin ++ behind
  expands : Text.expandTabs origin = front
  next : behind.head? = ((Text.expandTabs s).drop front.length).head?
  line : (Text.Position.after front).line = 1 + origin.count '\n'
  column : ∀ line, Text.LastLine origin line → '\t' ∉ line →
    (Text.Position.after front).column = 1 + line.length

theorem GivesUp.exists_origin (h : GivesUp (Text.expandTabs s) front expected) :
    ∃ origin behind, Origin s front origin behind := by
  obtain ⟨rest, hrest, hsolid⟩ := h.solid
  have hspace : ∀ c, rest.head? = some c → c ≠ ' ' := by
    intro c hc hspace
    exact hsolid c hc (by simp [hspace])
  obtain ⟨origin, behind, hs, hexpands, hhead⟩ := Text.exists_origin hrest hspace
  refine ⟨origin, behind, hs, hexpands, ?_, ?_, ?_⟩
  · rw [hhead, hrest, List.drop_left]
  · rw [← hexpands]
    exact congrArg (1 + ·) (Text.count_newline_expandTabsFrom 0 origin)
  · intro line hline htab
    rw [← hexpands]
    exact (hline.expandTabs htab).column

/-- **A text that is no program is refused at the place where it stops being one.** The place is
found in the text with its tabs expanded, and the message names it by line and column. It is also a
place in the text itself, in the same line, and in the same column if no tab is in front of it in
that line. -/
theorem refused_where_reading_stops (text : String) :
    ((∃ error, (ofText text).outcome = .error error) ↔
      ∃ expected front, GivesUp (Text.expandTabs text.toList) front expected) ∧
    ∀ expected front, GivesUp (Text.expandTabs text.toList) front expected →
      (ofText text).outcome = .error (.malformed ⟨expected, .after front⟩) ∧
      (∃ line, Text.LastLine front line ∧
        LoadError.message (.malformed ⟨expected, .after front⟩) =
          "Malformed program at line " ++ toString (1 + front.count '\n') ++
            ", column " ++ toString (1 + line.length) ++ ": " ++
            match expected with
            | .value => "Expected Re:('[+-]?[0-9]+')"
            | .endOfText => "Expected end of text") ∧
      ∃ origin behind, Origin text.toList front origin behind := by
  have houtcome := outcome_ofText text
  rw [parse] at houtcome
  refine ⟨?_, ?_⟩
  · rcases givesUp_or_program (Text.expandTabs text.toList) with
      ⟨expected, front, hgives, herror⟩ | ⟨xs, hok⟩
    · rw [houtcome, herror]
      exact iff_of_true ⟨_, rfl⟩ ⟨expected, front, hgives⟩
    · constructor
      · intro h
        obtain ⟨error, herror⟩ := h
        rw [houtcome, hok] at herror
        cases herror
      · intro h
        obtain ⟨expected, front, hgives⟩ := h
        cases hok.symm.trans (parseExpanded_of_givesUp hgives)
  · intro expected front hgives
    refine ⟨?_, ?_, hgives.exists_origin⟩
    · rw [houtcome, parseExpanded_of_givesUp hgives]
      rfl
    · obtain ⟨line, hline⟩ := Text.exists_lastLine front
      refine ⟨line, hline, ?_⟩
      rw [← hline.column]
      cases expected <;> rfl

/-- A text with a tab, two kinds of line ends and a comma with no integer behind it. -/
theorem refused_where_reading_stops_second_comma :
    ∃ front, GivesUp (Text.expandTabs "\t7,\r\n 1 ,\n , 2".toList) front .endOfText ∧
      Text.Position.after front = ⟨2, 4⟩ ∧
      ∃ origin behind, Origin "\t7,\r\n 1 ,\n , 2".toList front origin behind := by
  obtain ⟨hrefused, hplace⟩ := refused_where_reading_stops "\t7,\r\n 1 ,\n , 2"
  have houtcome : (ofText "\t7,\r\n 1 ,\n , 2").outcome =
      .error (.malformed ⟨.endOfText, ⟨2, 4⟩⟩) := by decide +kernel
  obtain ⟨expected, front, hgives⟩ := hrefused.1 ⟨_, houtcome⟩
  obtain ⟨herror, -, horigin⟩ := hplace expected front hgives
  obtain ⟨rfl, hposition⟩ := Malformed.mk.inj
    (LoadError.malformed.inj (Except.error.inj (houtcome.symm.trans herror)))
  exact ⟨front, hgives, hposition.symm, horigin⟩

end CellMachine.Image
