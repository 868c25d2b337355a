import IdlFormat.Proofs.Reading
import IdlFormat.Proofs.TopLevel
import IdlFormat.Token.EnumMember
import Mathlib.Data.List.Forall2
import Mathlib.Tactic.MkIffOfInductiveProp

/-!
# Reading back a list of enumeration members

Members joined by commas are read back, however they are spaced. Blanks neither hold a cut nor
change the state of the scanner, so a piece between two commas is sealed if its member is, and
trimming the piece gives the member back. One piece after the other is read off in this way
(`split_comma`) until the last one is left (`split_join_append`). That one loses a terminator, whence
it must not end in one itself.
-/

namespace IdlFormat

namespace EnumMember

/-- The state after a text, where members are told apart. -/
def stateAfter (text : Text) : Bracket.State :=
  ({} : Bracket.State).after [.round, .angle] text

/-- A text that can stand for one member. -/
@[mk_iff]
structure IsMember (member : Text) : Prop where
  /-- It is not empty. -/
  filled : member ≠ []
  /-- It neither starts nor ends with a blank. -/
  trimmed : member.trim = member
  /-- A comma in it stands in a literal or where brackets are not balanced. -/
  enclosed : ∀ i (inside : i < member.length), member[i] = ',' →
    (stateAfter (member.take i)).literal = .outside → (stateAfter (member.take i)).balance ≠ {}
  /-- No literal is open at its end. -/
  closed : (stateAfter member).literal = .outside
  /-- As many brackets of each kind are opened as are closed. -/
  balanced : (stateAfter member).balance = {}

instance (member : Text) : Decidable (IsMember member) :=
  decidable_of_iff' _ (isMember_iff member)

/-- A member with blanks before and after it. -/
def Padded (member piece : Text) : Prop :=
  ∃ lead trail, lead.all isBlank ∧ trail.all isBlank ∧ piece = lead ++ member ++ trail

variable {member piece : Text}

theorem Padded.trim_eq (padded : Padded member piece) : piece.trim = member.trim := by
  rcases padded with ⟨lead, trail, leading, trailing, rfl⟩
  exact Text.trim_between leading trailing member

/-- The text is one piece for the scanner that cuts at the commas between members. -/
abbrev IsPiece (text : Text) : Prop :=
  Bracket.Sealed (· = ',') [.round, .angle] text

theorem cuts_comma : ({} : Bracket.State).Cuts (· = ',') [.round, .angle] ',' := by decide

theorem IsMember.isPiece (isMember : IsMember member) : IsPiece member where
  whole := by
    intro i inside cuts
    rcases cuts with ⟨shown, -, isComma, balanced⟩
    have comma : member[i] = ',' := of_decide_eq_true isComma
    rw [comma] at shown
    apply isMember.enclosed i inside comma ?_ balanced
    rw [stateAfter]
    cases stands : (({} : Bracket.State).after [.round, .angle] (member.take i)).literal with
    | outside => rfl
    | inside quote escaped => simp [stands, Literal.State.reveals] at shown
  returns := Bracket.State.ext isMember.closed isMember.balanced

theorem isPiece_of_isBlank {gap : Text} (blank : gap.all isBlank) : IsPiece gap := by
  apply Bracket.Sealed.of_idle
  intro c inside
  have isBlank := List.all_eq_true.1 blank c inside
  have noBracket := Bracket.change?_eq_none (Bracket.ne_of_isBlank isBlank) [.round, .angle]
  refine ⟨Reading.not_isQuote_of_isBlank isBlank, noBracket, ?_⟩
  apply decide_eq_false
  rintro rfl
  revert isBlank
  decide

theorem Padded.isPiece (padded : Padded member piece) (isMember : IsMember member) :
    IsPiece piece := by
  rcases padded with ⟨lead, trail, leading, trailing, rfl⟩
  exact ((isPiece_of_isBlank leading).append isMember.isPiece).append (isPiece_of_isBlank trailing)

theorem isPiece_semicolon {tail : Text} (blank : tail.all isBlank) : IsPiece (';' :: tail) := by
  have mark : IsPiece [';'] := by
    apply Bracket.Sealed.of_idle
    simp only [List.mem_singleton, forall_eq]
    decide
  exact mark.append (isPiece_of_isBlank blank)

theorem ofPieces_cons {pieces : List Text} (filled : pieces ≠ []) (keep : Bool) (piece : Text) :
    ofPieces keep (piece :: pieces) =
      (if piece.trim.isEmpty then [] else [piece.trim ++ [',']]) ++ ofPieces keep pieces := by
  obtain ⟨next, others, rfl⟩ := List.exists_cons_of_ne_nil filled
  rw [ofPieces]
  · split <;> rfl
  · simp

/-- The first piece is read off at the first cut. -/
theorem split_append_comma (isPiece : IsPiece piece) (keep : Bool) (rest : Text) :
    split keep (piece ++ ',' :: rest) =
      (if piece.trim.isEmpty then [] else [piece.trim ++ [',']]) ++ split keep rest := by
  rw [split, isPiece.splitTopLevel_append_cons cuts_comma, ofPieces_cons, split]
  obtain ⟨first, others, same, -⟩ :=
    Bracket.exists_splitTopLevel_eq (· = ',') [.round, .angle] rest
  simp [same]

/-- A piece before a comma is a member of its own. -/
theorem split_comma (isPiece : IsPiece piece) (filled : piece.trim ≠ []) (keepSemicolon : Bool)
    (rest : Text) :
    split keepSemicolon (piece ++ ',' :: rest) =
      (piece.trim ++ [',']) :: split keepSemicolon rest := by
  rw [split_append_comma isPiece]
  simp [filled]

/-- The members before the last one are read off, whatever follows. -/
theorem split_join_append {init others : List Text} (padded : List.Forall₂ Padded init others)
    (members : ∀ member ∈ init, IsMember member) (keepSemicolon : Bool) (piece more : Text) :
    split keepSemicolon (Text.join [','] (others ++ [piece]) ++ more) =
      init.map (· ++ [',']) ++ split keepSemicolon (piece ++ more) := by
  induction padded with
  | nil => rfl
  | @cons member other init others first rest ih =>
      rcases List.forall_mem_cons.1 members with ⟨isMember, isMembers⟩
      have trimmed := first.trim_eq.trans isMember.trimmed
      have filled : other.trim ≠ [] := by
        rw [trimmed]
        exact isMember.filled
      rw [List.cons_append, Text.join_cons_of_ne_nil ',' other (List.concat_ne_nil piece others),
        List.append_assoc, List.cons_append, split_comma (first.isPiece isMember) filled,
        ih isMembers, trimmed, List.map_cons, List.cons_append]

theorem split_of_isPiece (isPiece : IsPiece piece) (keepSemicolon : Bool) :
    split keepSemicolon piece = ofPieces keepSemicolon [piece] := by
  rw [split, isPiece.whole.splitTopLevel_eq]

/-- A last piece without a terminator is a member, unless it is blank. -/
theorem split_unterminated (isPiece : IsPiece piece)
    (unterminated : ∀ c, piece.trim.getLast? = some c → c ≠ ',' ∧ c ≠ ';') (keepSemicolon : Bool) :
    split keepSemicolon piece = if piece.trim.isEmpty then [] else [piece.trim] := by
  have noSemicolon : piece.trim.getLast? ≠ some ';' := by
    intro ends
    exact (unterminated _ ends).2 rfl
  have kept : dropTerminator piece.trim = piece.trim := by
    rw [dropTerminator]
    split
    · next c ends => simp [unterminated c ends]
    · rfl
  simp [split_of_isPiece isPiece, ofPieces, noSemicolon, kept]

/-- A semicolon behind the last piece is dropped. -/
theorem split_semicolon {tail : Text} (blank : tail.all isBlank) (isPiece : IsPiece piece) :
    split false (piece ++ ';' :: tail) = if piece.trim.isEmpty then [] else [piece.trim] := by
  have trimmed := Text.trim_append_cons (by decide : isBlank ';' = false) blank piece
  have dropped : dropTerminator (piece.trimStart ++ [';']) = piece.trim := by
    simp [dropTerminator, Text.trim]
  rw [split_of_isPiece (isPiece.append (isPiece_semicolon blank))]
  simp [ofPieces, trimmed, dropped]

/-- Members joined by commas, with blanks around each, are read back, all but the last with their
commas. One more comma stays with the last member, and a semicolon at the end is dropped. -/
theorem split_join {init others : List Text} {last piece gap tail : Text}
    (members : ∀ member ∈ init ++ [last], IsMember member)
    (unterminated : ∀ c, last.getLast? = some c → c ≠ ',' ∧ c ≠ ';')
    (padded : List.Forall₂ Padded init others) (lastPadded : Padded last piece)
    (gapBlank : gap.all isBlank) (tailBlank : tail.all isBlank) :
    let joined := Text.join [','] (others ++ [piece])
    (∀ keepSemicolon, split keepSemicolon joined = init.map (· ++ [',']) ++ [last]) ∧
      (∀ keepSemicolon, split keepSemicolon (joined ++ ',' :: gap) =
        (init ++ [last]).map (· ++ [','])) ∧
      split false (joined ++ ';' :: tail) = split false joined ∧
      split false (joined ++ ',' :: gap ++ ';' :: tail) = split false (joined ++ ',' :: gap) := by
  intro joined
  have isMember := members last (by simp)
  have isPiece := lastPadded.isPiece isMember
  have isGap := isPiece_of_isBlank gapBlank
  have trimmed : piece.trim = last := lastPadded.trim_eq.trans isMember.trimmed
  have filled : piece.trim ≠ [] := by
    rw [trimmed]
    exact isMember.filled
  have noGap : gap.trim = [] := (Text.trim_eq_nil_iff gap).2 (Text.compact_eq_nil gapBlank)
  have readOff (keepSemicolon : Bool) (more : Text) :
      split keepSemicolon (joined ++ more) =
        init.map (· ++ [',']) ++ split keepSemicolon (piece ++ more) := by
    apply split_join_append padded
    intro member inside
    exact members member (List.mem_append_left [last] inside)
  have alone (keepSemicolon : Bool) : split keepSemicolon piece = [last] := by
    rw [split_unterminated isPiece (by rwa [trimmed]), trimmed]
    simp [isMember.filled]
  have plain (keepSemicolon : Bool) :
      split keepSemicolon joined = init.map (· ++ [',']) ++ [last] := by
    have more := readOff keepSemicolon []
    rwa [List.append_nil, List.append_nil, alone] at more
  have comma (keepSemicolon : Bool) :
      split keepSemicolon (joined ++ ',' :: gap) = (init ++ [last]).map (· ++ [',']) := by
    rw [readOff, split_comma isPiece filled, split_unterminated isGap (by simp [noGap]), trimmed,
      noGap]
    simp
  refine ⟨plain, comma, ?_, ?_⟩
  · rw [plain, readOff, split_semicolon tailBlank isPiece, trimmed]
    simp [isMember.filled]
  · rw [comma, List.append_assoc, readOff, List.cons_append, split_comma isPiece filled,
      split_semicolon tailBlank isGap, trimmed, noGap]
    simp

/-- Nested calls, angle brackets that close before they open, and a comma in a literal. -/
theorem split_join_nested :
    (∀ member ∈ ["f(a, g(1))".toList, "x>1, y<2".toList, "s = \"a,(\"".toList],
      IsMember member) ∧
      split false " f(a, g(1)) ,\n  x>1, y<2,\ts = \"a,(\" , ;\n".toList =
        ["f(a, g(1)),".toList, "x>1, y<2,".toList, "s = \"a,(\",".toList] := by
  have members : ∀ member ∈ ["f(a, g(1))".toList, "x>1, y<2".toList] ++ ["s = \"a,(\"".toList],
      IsMember member := by decide +kernel
  have unterminated : ∀ c, "s = \"a,(\"".toList.getLast? = some c → c ≠ ',' ∧ c ≠ ';' := by
    rintro c ⟨⟩
    decide
  have padded : List.Forall₂ Padded ["f(a, g(1))".toList, "x>1, y<2".toList]
      [" f(a, g(1)) ".toList, "\n  x>1, y<2".toList] :=
    .cons ⟨" ".toList, " ".toList, by decide⟩ (.cons ⟨"\n  ".toList, [], by decide⟩ .nil)
  have lastPadded : Padded "s = \"a,(\"".toList "\ts = \"a,(\" ".toList :=
    ⟨"\t".toList, " ".toList, by decide⟩
  have joined := @split_join _ _ _ _ " ".toList "\n".toList members unterminated padded
    lastPadded (by decide) (by decide)
  exact ⟨members, joined.2.2.2.trans (joined.2.1 false)⟩

end EnumMember

end IdlFormat
