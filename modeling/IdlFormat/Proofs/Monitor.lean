import IdlFormat.Proofs.Spacing

/-!
# What respacing cannot spoil

A monitor reads a text from left to right and objects to some characters, depending on its state.
If a space only makes it laxer and any other blank is no better than a space, then a text without
objections has none after a change of spacing. One lemma for each change says so, and together they
give it for respaced statements and attributes.
-/

namespace IdlFormat

/-- A reader of texts that objects to characters, and that blanks make laxer. -/
structure Monitor (State : Type) where
  /-- Whether there is no objection to a character. -/
  Admits : State → Char → Prop
  /-- The state after a character. -/
  next : State → Char → State
  /-- The second state is at least as lax as the first one. -/
  Laxer : State → State → Prop
  /-- A state is as lax as itself. -/
  refl : ∀ state, Laxer state state
  /-- A laxer state admits more. -/
  admits : ∀ {strict lax c}, Laxer strict lax → Admits strict c → Admits lax c
  /-- A laxer state stays so. -/
  after : ∀ {strict lax} c, Laxer strict lax → Laxer (next strict c) (next lax c)
  /-- A space is always admitted. -/
  space : ∀ state, Admits state ' '
  /-- A space makes a state laxer. -/
  relaxed : ∀ state, Laxer state (next state ' ')
  /-- Any other blank makes a state at most as lax as a space does. -/
  blank : ∀ state {c}, isBlank c → Laxer (next state c) (next state ' ')
  /-- One space makes a state as lax as two. -/
  twice : ∀ state, Laxer (next (next state ' ') ' ') (next state ' ')
  /-- A space before punctuation makes no difference. -/
  tight : ∀ state {c}, c ∈ [',', ';', '('] →
    (Admits (next state ' ') c → Admits state c) ∧
      Laxer (next (next state ' ') c) (next state c)
  /-- A space after an opening parenthesis makes no difference. -/
  opened : ∀ state, Laxer (next (next state '(') ' ') (next state '(')
  /-- A closing parenthesis is always admitted. -/
  closing : ∀ state, Admits state ')'
  /-- The characters of identifiers are always admitted. -/
  guid : ∀ state {c}, Attribute.isGuidChar c → Admits state c

namespace Monitor

variable {State : Type} (monitor : Monitor State)

/-- Whether there are no objections to a text. -/
def Passes (state : State) : Text → Prop
  | [] => True
  | c :: rest => monitor.Admits state c ∧ Passes (monitor.next state c) rest

/-- The state after a space. -/
def rest (state : State) : State :=
  monitor.next state ' '

variable {monitor} {state lax : State} {text : Text}

theorem Passes.relax (passes : monitor.Passes state text) (laxer : monitor.Laxer state lax) :
    monitor.Passes lax text := by
  induction text generalizing state lax with
  | nil => trivial
  | cons c rest ih =>
      exact ⟨monitor.admits laxer passes.1, ih passes.2 (monitor.after c laxer)⟩

theorem Passes.rested (passes : monitor.Passes state text) :
    monitor.Passes (monitor.rest state) text :=
  passes.relax (monitor.relaxed state)

theorem Passes.rested_once (passes : monitor.Passes (monitor.rest (monitor.rest state)) text) :
    monitor.Passes (monitor.rest state) text :=
  passes.relax (monitor.twice state)

/-- A blank at the front of a text may count as a space. -/
theorem Passes.of_blank {c : Char} (passes : monitor.Passes state (c :: text)) (blank : isBlank c) :
    monitor.Passes (monitor.rest state) text :=
  passes.2.relax (monitor.blank state blank)

theorem passes_space : monitor.Passes state (' ' :: text) ↔ monitor.Passes (monitor.rest state) text :=
  and_iff_right (monitor.space state)

theorem Passes.cons {c : Char} {other : Text} (passes : monitor.Passes state (c :: text))
    (more : ∀ state, monitor.Passes state text → monitor.Passes state other) :
    monitor.Passes state (c :: other) :=
  ⟨passes.1, more _ passes.2⟩

/-- Punctuation can be moved up to what stands before a space. -/
theorem passes_of_head {c : Char} (first : text.head? = some c) (punctuation : c ∈ [',', ';', '('])
    (passes : monitor.Passes (monitor.rest state) text) : monitor.Passes state text := by
  cases text with
  | nil => trivial
  | cons d rest =>
      obtain rfl : d = c := by simpa using first
      obtain ⟨admits, laxer⟩ := monitor.tight state punctuation
      exact ⟨admits passes.1, passes.2.relax laxer⟩

theorem passes_collapseFrom (afterBlank : Bool) (passes : monitor.Passes state text) :
    monitor.Passes (if afterBlank then monitor.rest state else state)
      (Text.collapseFrom afterBlank text) := by
  fun_induction Text.collapseFrom afterBlank text generalizing state with
  | case1 => trivial
  | case2 c rest blank ih => exact (ih (passes.of_blank blank)).rested_once
  | case3 afterBlank c rest blank fresh ih =>
      have more := (ih (passes.of_blank blank)).rested_once
      rw [if_neg fresh]
      exact passes_space.2 more
  | case4 afterBlank c rest _ ih =>
      have here : monitor.Passes (if afterBlank then monitor.rest state else state) (c :: rest) := by
        split
        · exact passes.rested
        · exact passes
      exact here.cons fun _ => ih

theorem passes_collapse (passes : monitor.Passes state text) : monitor.Passes state text.collapse :=
  passes_collapseFrom false passes

theorem passes_trimStart (passes : monitor.Passes state text) :
    monitor.Passes (monitor.rest state) text.trimStart := by
  induction text generalizing state with
  | nil => trivial
  | cons c rest ih =>
      by_cases blank : isBlank c
      · have dropped : Text.trimStart (c :: rest) = Text.trimStart rest :=
          List.dropWhile_cons_of_pos blank
        rw [dropped]
        exact (ih (passes.of_blank blank)).rested_once
      · have kept : Text.trimStart (c :: rest) = c :: rest := List.dropWhile_cons_of_neg blank
        rw [kept]
        exact passes.rested

theorem passes_trimEnd (passes : monitor.Passes state text) : monitor.Passes state text.trimEnd := by
  induction text generalizing state with
  | nil => trivial
  | cons c rest ih =>
      rw [Text.trimEnd_cons]
      split
      · trivial
      · exact passes.cons fun _ => ih

theorem passes_trim (passes : monitor.Passes state text) :
    monitor.Passes (monitor.rest state) text.trim :=
  passes_trimEnd (passes_trimStart passes)

theorem passes_spaceCommas (passes : monitor.Passes state text) :
    monitor.Passes state text.spaceCommas := by
  fun_induction Text.spaceCommas text generalizing state with
  | case1 => trivial
  | case2 c rest _ ih =>
      apply passes.cons
      intro state more
      exact passes_space.2 (ih more.rested)
  | case3 c rest _ ih => exact passes.cons fun _ => ih

theorem passes_padOperators (passes : monitor.Passes state text) :
    monitor.Passes state (Statement.padOperators text) := by
  induction text generalizing state with
  | nil => trivial
  | cons c rest ih =>
      simp only [Statement.padOperators, List.flatMap_cons] at ih ⊢
      split
      · apply passes_space.2
        apply passes.rested.cons
        intro state more
        exact passes_space.2 (ih more.rested)
      · exact passes.cons fun _ => ih

theorem passes_tighten {mark : Char} (punctuation : mark ∈ [',', ';', '('])
    (passes : monitor.Passes state text) : monitor.Passes state (text.tighten mark) := by
  induction text generalizing state with
  | nil => trivial
  | cons c rest ih =>
      rw [Text.tighten_cons]
      split
      · next dropped =>
          simp only [Bool.and_eq_true, beq_iff_eq] at dropped
          exact passes_of_head dropped.2 punctuation (ih (passes.of_blank dropped.1))
      · exact passes.cons fun _ => ih

theorem passes_spaceAfterBrackets (passes : monitor.Passes state text) :
    monitor.Passes state (Statement.spaceAfterBrackets text) := by
  fun_induction Statement.spaceAfterBrackets text generalizing state with
  | case1 => trivial
  | case2 c rest _ ih =>
      apply passes.cons
      intro state more
      exact passes_space.2 (ih more.rested)
  | case3 c rest _ ih => exact passes.cons fun _ => ih

theorem passes_spaceKeywordsFrom (word : Text) (passes : monitor.Passes state text) :
    monitor.Passes state (Statement.spaceKeywordsFrom word text) := by
  fun_induction Statement.spaceKeywordsFrom word text generalizing state with
  | case1 => trivial
  | case2 word c rest _ ih => exact passes_space.2 (passes.rested.cons fun _ => ih)
  | case3 word c rest _ ih => exact passes.cons fun _ => ih

theorem passes_respaceCommasFrom (afterComma : Bool) (passes : monitor.Passes state text) :
    monitor.Passes (if afterComma then monitor.rest state else state)
      (Text.respaceCommasFrom afterComma text) := by
  fun_induction Text.respaceCommasFrom afterComma text generalizing state with
  | case1 => trivial
  | case2 afterComma c rest dropped ih =>
      simp only [Bool.and_eq_true] at dropped
      rw [if_pos dropped.1]
      exact (ih (passes.of_blank dropped.2)).rested_once
  | case3 afterComma rest _ ih =>
      have here : monitor.Passes (if afterComma then monitor.rest state else state) (',' :: rest) := by
        split
        · exact passes.rested
        · exact passes
      apply here.cons
      intro state more
      exact passes_space.2 (ih more)
  | case4 afterComma c rest _ _ ih =>
      have here : monitor.Passes (if afterComma then monitor.rest state else state) (c :: rest) := by
        split
        · exact passes.rested
        · exact passes
      exact here.cons fun _ => ih

theorem passes_respaceCommas (passes : monitor.Passes state text) :
    monitor.Passes state text.respaceCommas :=
  passes_respaceCommasFrom false (passes_tighten (by simp) passes)

/-- Respacing a statement gives rise to no objection. -/
theorem passes_statementRespace (passes : monitor.Passes state text) :
    monitor.Passes (monitor.rest state) (Statement.respace text) := by
  have collapsed := passes_trim (passes_collapse passes)
  have padded := passes_padOperators (passes_spaceCommas collapsed)
  have tightened := passes_tighten (by simp : ';' ∈ [',', ';', '(']) (passes_collapse padded)
  have spaced := passes_spaceKeywordsFrom [] (passes_spaceAfterBrackets tightened)
  exact (passes_trim spaced).rested_once

theorem passes_of_all_isGuidChar (guid : text.all Attribute.isGuidChar) : monitor.Passes state text := by
  induction text generalizing state with
  | nil => trivial
  | cons c rest ih =>
      simp only [List.all_cons, Bool.and_eq_true] at guid
      exact ⟨monitor.guid state guid.1, ih guid.2⟩

theorem passes_formatArguments (passes : monitor.Passes state text) :
    monitor.Passes (monitor.rest state) (Attribute.formatArguments text) := by
  simp only [Attribute.formatArguments]
  split
  · next guid => exact passes_of_all_isGuidChar (Bool.and_eq_true_iff.1 guid).2
  · split
    · exact passes_trim (passes_collapse passes)
    · exact passes_trim (passes_respaceCommas (passes_collapse passes))

theorem Passes.left {left right : Text} (passes : monitor.Passes state (left ++ right)) :
    monitor.Passes state left := by
  induction left generalizing state with
  | nil => trivial
  | cons c left ih => exact ⟨passes.1, ih passes.2⟩

theorem Passes.append_congr {left right other : Text}
    (passes : monitor.Passes state (left ++ right))
    (more : ∀ state, monitor.Passes state right → monitor.Passes state other) :
    monitor.Passes state (left ++ other) := by
  induction left generalizing state with
  | nil => exact more state passes
  | cons c left ih => exact ⟨passes.1, ih passes.2⟩

theorem Passes.append {left right : Text} (passes : monitor.Passes state left)
    (more : ∀ state, monitor.Passes state right) : monitor.Passes state (left ++ right) := by
  induction left generalizing state with
  | nil => exact more state
  | cons c left ih => exact ⟨passes.1, ih passes.2⟩

theorem Passes.of_gap {gap : Text} (blank : gap.all isBlank)
    (passes : monitor.Passes state (gap ++ '(' :: text)) : monitor.Passes state ('(' :: text) := by
  induction gap generalizing state with
  | nil => exact passes
  | cons c gap ih =>
      simp only [List.all_cons, Bool.and_eq_true] at blank
      exact passes_of_head rfl (by simp) (ih blank.2 (passes.of_blank blank.1))

/-- Respacing an attribute gives rise to no objection. -/
theorem passes_attributeRespace (passes : monitor.Passes state text) :
    monitor.Passes (monitor.rest state) (Attribute.respace text) := by
  have spaced := passes_spaceCommas (passes_trim (passes_collapse passes))
  simp only [Attribute.respace]
  split
  · next name inner found =>
      obtain ⟨-, -, gap, blank, same⟩ := Attribute.eq_of_call? found
      have shape : name ++ ['('] ++ Attribute.formatArguments inner.trim ++ [')'] =
          name ++ '(' :: (Attribute.formatArguments inner.trim ++ [')']) := by simp
      have parts : name ++ gap ++ '(' :: inner ++ [')'] = name ++ (gap ++ '(' :: (inner ++ [')'])) := by
        simp
      rw [same, parts] at spaced
      rw [shape]
      apply spaced.append_congr
      intro state call
      have opened := call.of_gap blank
      have arguments := passes_formatArguments (passes_trim opened.2.left)
      have laid := arguments.rested_once.relax (monitor.opened state)
      exact ⟨opened.1, laid.append fun state => ⟨monitor.closing state, trivial⟩⟩
  · exact spaced

end Monitor

end IdlFormat
