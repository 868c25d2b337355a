import IdlFormat.Documentation.Hover
import Mathlib.Data.List.Infix
import Mathlib.Data.List.TakeWhile

/-!
# Runs of name characters

A longest run of name characters is met from every offset in it and from both of its ends, by going
back to its start and on to its end (`NameRun.namedBefore_eq`, `NameRun.namedAfter_eq`). The other
way round, what is met from an offset is a longest run, unless it is empty (`exists_nameRun`). So an
offset touches one run at most, and the word at an offset is that run, if it can be a name.
-/

namespace IdlFormat

namespace Documentation

/-- The characters from `start` up to `stop` are name characters, and none stands next to them. -/
structure NameRun (text : Text) (start stop : Nat) : Prop where
  /-- There is at least one. -/
  filled : start < stop
  /-- They stand in the text. -/
  inside : stop ≤ text.length
  /-- They are name characters. -/
  named : ∀ c ∈ (text.take stop).drop start, isNameChar c
  /-- No name character stands before them. -/
  starts : ∀ c, (text.take start).getLast? = some c → isNameChar c = false
  /-- No name character follows them. -/
  ends : ∀ c, (text.drop stop).head? = some c → isNameChar c = false

/-- An offset lies in a part of a text or at one of its ends. -/
def Touches (offset : Int) (start stop : Nat) : Prop :=
  start ≤ offset ∧ offset ≤ stop

/-- The name characters before an offset, last one first. -/
def namedBefore (text : Text) (offset : Nat) : Text :=
  (text.take offset).reverse.takeWhile isNameChar

/-- The name characters behind an offset. -/
def namedAfter (text : Text) (offset : Nat) : Text :=
  (text.drop offset).takeWhile isNameChar

theorem Touches.nonneg {offset : Int} {start stop : Nat} (touches : Touches offset start stop) :
    0 ≤ offset :=
  Int.le_trans (Int.natCast_nonneg start) touches.1

variable {text : Text} {start stop offset : Nat}

theorem takeWhile_eq_nil_of_head? {p : Char → Bool} {rest : Text}
    (stops : ∀ c, rest.head? = some c → p c = false) : rest.takeWhile p = [] := by
  cases rest with
  | nil => rfl
  | cons c rest => exact List.takeWhile_cons_of_neg (by simp [stops c rfl])

theorem not_of_head?_dropWhile {p : Char → Bool} {rest : Text} {c : Char}
    (first : (rest.dropWhile p).head? = some c) : p c = false := by
  have stopped := List.head?_dropWhile_not p rest
  rw [first] at stopped
  simpa using stopped

namespace NameRun

/-- The part of a run that stands before an offset. -/
theorem namedBefore_eq (run : NameRun text start stop) (behind : start ≤ offset)
    (before : offset ≤ stop) :
    namedBefore text offset = ((text.take offset).drop start).reverse := by
  have parts : text.take offset = text.take start ++ (text.take offset).drop start := by
    have cut := List.take_append_drop start (text.take offset)
    rwa [List.take_take, Nat.min_eq_left behind, eq_comm] at cut
  have named : ∀ c ∈ ((text.take offset).drop start).reverse, isNameChar c := by
    intro c member
    have shorter : text.take offset <+: text.take stop := List.take_prefix_take_left before
    exact run.named c ((shorter.drop start).subset (List.mem_reverse.1 member))
  have stops : (text.take start).reverse.takeWhile isNameChar = [] := by
    apply takeWhile_eq_nil_of_head?
    rw [List.head?_reverse]
    exact run.starts
  rw [namedBefore, parts, List.reverse_append, ← parts, List.takeWhile_append_of_pos named, stops,
    List.append_nil]

/-- The part of a run that stands behind an offset. -/
theorem namedAfter_eq (run : NameRun text start stop) (behind : start ≤ offset)
    (before : offset ≤ stop) : namedAfter text offset = (text.take stop).drop offset := by
  have parts : text.drop offset = (text.take stop).drop offset ++ text.drop stop := by
    have within : offset ≤ (text.take stop).length := by
      rw [List.length_take]
      exact Nat.le_min.2 ⟨before, before.trans run.inside⟩
    rw [← List.drop_append_of_le_length within, List.take_append_drop]
  have named : ∀ c ∈ (text.take stop).drop offset, isNameChar c := by
    intro c member
    exact run.named c ((List.drop_sublist_drop_left _ behind).subset member)
  rw [namedAfter, parts, List.takeWhile_append_of_pos named, takeWhile_eq_nil_of_head? run.ends,
    List.append_nil]

/-- A run is met from every offset that touches it. -/
theorem namedBefore_append_namedAfter (run : NameRun text start stop) (behind : start ≤ offset)
    (before : offset ≤ stop) :
    (namedBefore text offset).reverse ++ namedAfter text offset = (text.take stop).drop start := by
  have within : start ≤ (text.take offset).length := by
    rw [List.length_take]
    exact Nat.le_min.2 ⟨behind, behind.trans (before.trans run.inside)⟩
  have joined : text.take offset ++ (text.take stop).drop offset = text.take stop := by
    have cut := List.take_append_drop offset (text.take stop)
    rwa [List.take_take, Nat.min_eq_left before] at cut
  rw [run.namedBefore_eq behind before, run.namedAfter_eq behind before, List.reverse_reverse,
    ← List.drop_append_of_le_length within, joined]

/-- No offset touches two runs. -/
theorem unique (run : NameRun text start stop) {otherStart otherStop : Nat}
    (other : NameRun text otherStart otherStop) (behind : start ≤ offset) (before : offset ≤ stop)
    (otherBehind : otherStart ≤ offset) (otherBefore : offset ≤ otherStop) :
    start = otherStart ∧ stop = otherStop := by
  have back := (run.namedBefore_eq behind before).symm.trans
    (other.namedBefore_eq otherBehind otherBefore)
  have on := (run.namedAfter_eq behind before).symm.trans
    (other.namedAfter_eq otherBehind otherBefore)
  have backLength := congrArg List.length back
  have onLength := congrArg List.length on
  have inside := run.inside
  have otherInside := other.inside
  simp only [List.length_reverse, List.length_drop, List.length_take] at backLength onLength
  omega

end NameRun

theorem nameRun_of_parts {left run right : Text} (filled : run ≠ [])
    (named : ∀ c ∈ run, isNameChar c)
    (starts : ∀ c, left.getLast? = some c → isNameChar c = false)
    (ends : ∀ c, right.head? = some c → isNameChar c = false) :
    NameRun (left ++ run ++ right) left.length (left.length + run.length) where
  filled := Nat.lt_add_of_pos_right (List.length_pos_iff.2 filled)
  inside := by simp
  named := by
    have taken : (left ++ run ++ right).take (left.length + run.length) = left ++ run :=
      List.take_left' (List.length_append)
    rw [taken, List.drop_left]
    exact named
  starts := by
    rw [List.append_assoc, List.take_left]
    exact starts
  ends := by
    rw [List.drop_left' List.length_append]
    exact ends

/-- What is met from an offset is a run, unless it is empty. -/
theorem exists_nameRun (within : offset ≤ text.length)
    (filled : (namedBefore text offset).reverse ++ namedAfter text offset ≠ []) :
    ∃ start stop, NameRun text start stop ∧ start ≤ offset ∧ offset ≤ stop := by
  let left := (text.take offset).reverse.dropWhile isNameChar
  let right := (text.drop offset).dropWhile isNameChar
  let run := (namedBefore text offset).reverse ++ namedAfter text offset
  have ahead : left.reverse ++ (namedBefore text offset).reverse = text.take offset := by
    rw [← List.reverse_append, namedBefore, List.takeWhile_append_dropWhile, List.reverse_reverse]
  have behind : namedAfter text offset ++ right = text.drop offset :=
    List.takeWhile_append_dropWhile
  have parts : left.reverse ++ run ++ right = text := by
    rw [← List.append_assoc, ahead, List.append_assoc, behind, List.take_append_drop]
  have named : ∀ c ∈ run, isNameChar c := by
    intro c member
    rcases List.mem_append.1 member with back | on
    · exact List.mem_takeWhile_imp (List.mem_reverse.1 back)
    · exact List.mem_takeWhile_imp on
  have starts : ∀ c, left.reverse.getLast? = some c → isNameChar c = false := by
    intro c last
    exact not_of_head?_dropWhile (List.getLast?_reverse.symm.trans last)
  have ends : ∀ c, right.head? = some c → isNameChar c = false := by
    intro c first
    exact not_of_head?_dropWhile first
  have found := nameRun_of_parts filled named starts ends
  have length := congrArg List.length ahead
  rw [List.length_append, List.length_take, Nat.min_eq_left within, List.length_reverse,
    List.length_reverse] at length
  refine ⟨_, _, parts ▸ found, ?_, ?_⟩
  · rw [List.length_reverse]
    omega
  · rw [List.length_append, List.length_reverse, List.length_reverse]
    omega

theorem wordAt_natCast (within : offset ≤ text.length) :
    wordAt text offset =
      if ((namedBefore text offset).reverse ++ namedAfter text offset).head?.any (!·.isDigit) then
        some ((namedBefore text offset).reverse ++ namedAfter text offset)
      else none := by
  have stands : ((0 : Int) ≤ offset && (offset : Int) ≤ text.length) = true := by
    simp [within]
  rw [wordAt, if_pos stands]
  rfl

theorem bounds_of_wordAt {offset : Int} {word : Text} (found : wordAt text offset = some word) :
    ∃ position : Nat, offset = position ∧ position ≤ text.length := by
  rw [wordAt] at found
  split at found
  · next within =>
      simp only [Bool.and_eq_true, decide_eq_true_eq] at within
      obtain ⟨position, rfl⟩ := Int.eq_ofNat_of_zero_le within.1
      exact ⟨position, rfl, Int.ofNat_le.1 within.2⟩
  · simp at found

/-- A run can be a name if its first character is no digit. -/
theorem NameRun.head?_any_iff (run : NameRun text start stop) :
    ((text.take stop).drop start).head?.any (!·.isDigit) = true ↔
      ∀ c, text[start]? = some c → c.isDigit = false := by
  have stands : start < text.length := Nat.lt_of_lt_of_le run.filled run.inside
  rw [List.head?_drop, List.getElem?_take_of_lt run.filled, List.getElem?_eq_getElem stands]
  simp

/-- The word at an offset that touches a run is the run, if it can be a name. -/
theorem NameRun.wordAt_eq (run : NameRun text start stop) {offset : Int}
    (touches : Touches offset start stop) :
    wordAt text offset =
      if ((text.take stop).drop start).head?.any (!·.isDigit) then
        some ((text.take stop).drop start)
      else none := by
  obtain ⟨offset, rfl⟩ := Int.eq_ofNat_of_zero_le (touches.nonneg)
  have behind : start ≤ offset := Int.ofNat_le.1 touches.1
  have before : offset ≤ stop := Int.ofNat_le.1 touches.2
  rw [wordAt_natCast (before.trans run.inside), run.namedBefore_append_namedAfter behind before]

/-- The word at an offset is the longest run of name characters that it touches, unless that begins
with a digit. An offset touches one run at most, and all that touch a run give the same word and the
same help. -/
theorem wordAt_eq_run (text : Text) (offset : Int) :
    (∀ word, wordAt text offset = some word ↔
      0 ≤ offset ∧ offset ≤ text.length ∧ ∃ start stop, NameRun text start stop ∧
        Touches offset start stop ∧ (∀ c, text[start]? = some c → c.isDigit = false) ∧
        word = (text.take stop).drop start) ∧
    (∀ start stop otherStart otherStop, NameRun text start stop → Touches offset start stop →
      NameRun text otherStart otherStop → Touches offset otherStart otherStop →
      start = otherStart ∧ stop = otherStop) ∧
    ∀ start stop, NameRun text start stop → Touches offset start stop →
      ∀ other, Touches other start stop →
        wordAt text other = wordAt text offset ∧ hoverAt text other = hoverAt text offset := by
  refine ⟨?_, ?_, ?_⟩
  · intro word
    constructor
    · intro found
      obtain ⟨offset, rfl, within⟩ := bounds_of_wordAt found
      rw [wordAt_natCast within] at found
      split at found
      · next isName =>
          have filled : (namedBefore text offset).reverse ++ namedAfter text offset ≠ [] := by
            intro empty
            simp [empty] at isName
          obtain ⟨start, stop, run, behind, before⟩ := exists_nameRun within filled
          rw [run.namedBefore_append_namedAfter behind before] at found isName
          refine ⟨Int.natCast_nonneg offset, Int.ofNat_le.2 within, start, stop, run,
            ⟨Int.ofNat_le.2 behind, Int.ofNat_le.2 before⟩, ?_, (Option.some.inj found).symm⟩
          rwa [run.head?_any_iff] at isName
      · simp at found
    · rintro ⟨-, -, start, stop, run, touches, isName, rfl⟩
      rw [run.wordAt_eq touches, if_pos (run.head?_any_iff.2 isName)]
  · intro start stop otherStart otherStop run touches other otherTouches
    obtain ⟨offset, rfl⟩ := Int.eq_ofNat_of_zero_le touches.nonneg
    exact run.unique other (Int.ofNat_le.1 touches.1) (Int.ofNat_le.1 touches.2)
      (Int.ofNat_le.1 otherTouches.1) (Int.ofNat_le.1 otherTouches.2)
  · intro start stop run touches other otherTouches
    have same : wordAt text other = wordAt text offset := by
      rw [run.wordAt_eq otherTouches, run.wordAt_eq touches]
    exact ⟨same, by rw [hoverAt, hoverAt, same]⟩

/-- Both ends of a name, a place in it, and the place between a digit-led run and a parenthesis. -/
theorem wordAt_eq_run_ends :
    NameRun "f(_x1, 2b)".toList 2 5 ∧
      wordAt "f(_x1, 2b)".toList 2 = some "_x1".toList ∧
      wordAt "f(_x1, 2b)".toList 5 = some "_x1".toList ∧
      hoverAt "f(_x1, 2b)".toList 2 = hoverAt "f(_x1, 2b)".toList 4 ∧
      wordAt "f(_x1, 2b)".toList 9 = none := by
  have run : NameRun "f(_x1, 2b)".toList 2 5 := by
    refine ⟨by decide, by decide, ?_, ?_, ?_⟩
    · exact List.all_eq_true.1 (by decide : "_x1".toList.all isNameChar)
    · intro c before
      obtain rfl : '(' = c := Option.some.inj before
      decide
    · intro c behind
      obtain rfl : ',' = c := Option.some.inj behind
      decide
  obtain ⟨-, -, alike⟩ := wordAt_eq_run "f(_x1, 2b)".toList 4
  have first := alike 2 5 run ⟨by decide, by decide⟩ 2 ⟨by decide, by decide⟩
  have last := alike 2 5 run ⟨by decide, by decide⟩ 5 ⟨by decide, by decide⟩
  exact ⟨run, first.1.trans (by decide), last.1.trans (by decide), first.2, by decide⟩

end Documentation

end IdlFormat
