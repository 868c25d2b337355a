import IdlFormat.Proofs.Scanning

/-!
# The code outside literals

What the scanners of brackets take for code is what is left of a text when its literals are cut off
one after the other. The scanners do not cut them off, but run along the text with a state that
knows whether a literal is open; `codeFrom_eq` says that both find the same characters at the same
places. The state is told by what stands before, so the code of two texts joined is the code of the
first one and then that of the second one, as it is read behind the first (`State.codeFrom_append`).
-/

namespace IdlFormat

/-- A place in a text is its first character or a place in the rest. -/
theorem Text.exists_place_cons {c : Char} {rest : Text} {holds : Text → Char → Prop} :
    (∃ before d after, c :: rest = before ++ d :: after ∧ holds before d) ↔
      holds [] c ∨ ∃ before d after, rest = before ++ d :: after ∧ holds (c :: before) d := by
  constructor
  · rintro ⟨before, d, after, same, held⟩
    cases before with
    | nil =>
        obtain ⟨rfl, rfl⟩ := List.cons.inj same
        exact .inl held
    | cons e before =>
        obtain ⟨rfl, rfl⟩ := List.cons.inj same
        exact .inr ⟨before, d, after, rfl, held⟩
  · rintro (held | ⟨before, d, after, rfl, held⟩)
    · exact ⟨[], c, rest, rfl, held⟩
    · exact ⟨c :: before, d, after, rfl, held⟩

namespace Literal

/-- The characters of a text that stand outside its literals, with their positions, where the first
position is given. -/
def codeFrom (position : Nat) : Text → List (Nat × Char)
  | [] => []
  | c :: rest =>
      if isQuote c then
        let literal := scan c false rest
        codeFrom (position + 1 + literal.body.length) literal.rest
      else (position, c) :: codeFrom (position + 1) rest
termination_by text => text.length
decreasing_by
  · have := length_rest_le c false rest
    simp only [List.length_cons]
    omega
  · simp

/-- The characters of a text that stand outside its literals, with their positions. -/
def code (text : Text) : List (Nat × Char) :=
  codeFrom 0 text

/-- The literals of a text in order, as they are cut off. -/
def literals : Text → List Scan
  | [] => []
  | c :: rest =>
      if isQuote c then scan c false rest :: literals (scan c false rest).rest
      else literals rest
termination_by text => text.length
decreasing_by
  · have := length_rest_le c false rest
    simp only [List.length_cons]
    omega
  · simp

/-- Every literal of a text ends in its quote. -/
def AllClosed (text : Text) : Prop :=
  ∀ literal ∈ literals text, literal.repair = []

instance : DecidablePred AllClosed :=
  fun text => inferInstanceAs (Decidable (∀ literal ∈ literals text, literal.repair = []))

namespace State

/-- The characters of a text that count as code when the text is read from a state on. -/
def codeFrom (state : State) (position : Nat) : Text → List (Nat × Char)
  | [] => []
  | c :: rest =>
      let later := (state.next c).codeFrom (position + 1) rest
      if state.reveals c then (position, c) :: later else later

/-- The state after a text. -/
def after (state : State) (text : Text) : State :=
  text.foldl next state

variable {state : State} {position : Nat} {text left right : Text}

theorem after_append (state : State) (left right : Text) :
    state.after (left ++ right) = (state.after left).after right :=
  List.foldl_append

theorem codeFrom_cons (state : State) (position : Nat) (c : Char) (rest : Text) :
    state.codeFrom position (c :: rest) =
      (if state.reveals c then [(position, c)] else []) ++
        (state.next c).codeFrom (position + 1) rest := by
  rw [codeFrom]
  split <;> rfl

theorem codeFrom_append (state : State) (position : Nat) (left right : Text) :
    state.codeFrom position (left ++ right) =
      state.codeFrom position left ++
        (state.after left).codeFrom (position + left.length) right := by
  induction left generalizing state position with
  | nil => rfl
  | cons c left ih =>
      have shifted : position + 1 + left.length = position + (c :: left).length := by
        rw [List.length_cons]
        omega
      rw [List.cons_append, codeFrom_cons, codeFrom_cons, ih, List.append_assoc, shifted]
      rfl

theorem mem_codeFrom_iff {i : Nat} {c : Char} :
    (i, c) ∈ state.codeFrom position text ↔
      ∃ before d after, text = before ++ d :: after ∧ i = position + before.length ∧ c = d ∧
        (state.after before).reveals d := by
  induction text generalizing state position with
  | nil => simp [codeFrom]
  | cons d rest ih =>
      have shifted (before : Text) :
          position + 1 + before.length = position + (d :: before).length := by
        rw [List.length_cons]
        omega
      rw [codeFrom_cons, List.mem_append, ih, Text.exists_place_cons]
      simp only [shifted]
      apply or_congr ?_ Iff.rfl
      by_cases shown : state.reveals d
      · simp [shown, after]
      · simp [shown, after]

/-- The code before a position is the code of the text before it. -/
theorem filter_codeFrom_append (state : State) (left right : Text) :
    (state.codeFrom 0 (left ++ right)).filter (·.1 < left.length) = state.codeFrom 0 left := by
  rw [codeFrom_append, List.filter_append, List.filter_eq_self.2, List.filter_eq_nil_iff.2,
    List.append_nil]
  · rintro ⟨i, c⟩ later
    rcases mem_codeFrom_iff.1 later with ⟨before, d, after, -, rfl, -⟩
    simp
  · rintro ⟨i, c⟩ earlier
    rcases mem_codeFrom_iff.1 earlier with ⟨before, d, after, rfl, rfl, -⟩
    simp

end State

theorem reader_codeFrom :
    Reader (fun state text position => State.codeFrom state position text)
      fun _ read position => read (position + 1) where
  hidden rest hidden := by
    funext position
    rw [State.codeFrom_cons, hidden]
    rfl
  ended _ := rfl
  broken state rest := by
    funext position
    simp only [State.codeFrom_cons, reveals_break, next_break]

theorem foldr_shift {Result : Type} (text : Text) (read : Nat → Result) (position : Nat) :
    text.foldr (fun _ read position => read (position + 1)) read position =
      read (position + text.length) := by
  induction text generalizing position with
  | nil => rfl
  | cons c text ih => rw [List.foldr_cons, ih, List.length_cons, Nat.add_assoc, Nat.add_comm 1]

/-- A literal as it is cut off fits what follows it. -/
theorem fits_scan {quote : Char} (quoted : isQuote quote) (rest : Text) :
    (Segment.literal (quote :: (scan quote false rest).body) (scan quote false rest).repair).Fits
      (scan quote false rest).rest.head? :=
  ⟨quote, _, rfl, quoted, scan_body quote false rest, stops_scan quote false rest⟩

/-- The state that runs along a text finds the same code as cutting the literals off. -/
theorem codeFrom_eq (position : Nat) (text : Text) :
    codeFrom position text = State.outside.codeFrom position text := by
  fun_induction codeFrom position text with
  | case1 => rfl
  | case2 position c rest quoted literal ih =>
      have passed := congrFun (reader_codeFrom.literal (fits_scan quoted rest)) position
      rw [List.cons_append, body_append_rest, foldr_shift, List.length_cons] at passed
      rw [passed, ih, Nat.add_right_comm, Nat.add_assoc]
  | case3 position c rest unquoted ih =>
      have shown : State.outside.reveals c = true := by simpa [State.reveals] using unquoted
      have stays : State.outside.next c = .outside := by simp [State.next, unquoted]
      rw [State.codeFrom_cons, if_pos shown, stays, ih]
      rfl

theorem after_inside_of_scan {quote : Char} (quoted : isQuote quote) {escaped : Bool} {body : Text}
    (whole : scan quote escaped body = ⟨body, [], []⟩) :
    (State.inside quote escaped).after body = .outside := by
  induction body generalizing escaped with
  | nil =>
      simp only [scan, Scan.mk.injEq, true_and] at whole
      cases escaped <;> simp [repair] at whole
  | cons c body ih =>
      rcases scan_cons_whole quoted whole with ⟨rfl, rfl, rfl, -⟩ | ⟨inLine, goesOn, inner⟩
      · simp [State.after, State.next, quote_ne_break quoted, quote_ne_backslash quoted]
      · rw [State.after, List.foldl_cons, next_inside inLine goesOn]
        exact ih inner

/-- No literal is open behind a text whose literals are closed. -/
theorem after_of_allClosed {text : Text} (closed : AllClosed text) :
    State.outside.after text = .outside := by
  rw [AllClosed] at closed
  fun_induction literals text with
  | case1 => rfl
  | case2 c rest quoted ih =>
      rcases List.forall_mem_cons.1 closed with ⟨own, later⟩
      have whole := scan_body c false rest
      rw [own] at whole
      have opened : State.outside.next c = .inside c false := by simp [State.next, quoted]
      have ended : State.outside.after (c :: (scan c false rest).body) = .outside := by
        rw [State.after, List.foldl_cons, opened]
        exact after_inside_of_scan quoted whole
      have parts := State.after_append .outside (c :: (scan c false rest).body)
        (scan c false rest).rest
      rw [List.cons_append, body_append_rest, ended, ih later] at parts
      exact parts
  | case3 c rest unquoted ih =>
      have stays : State.outside.next c = .outside := by simp [State.next, unquoted]
      rw [State.after, List.foldl_cons, stays]
      exact ih closed

end Literal

end IdlFormat
