import IdlFormat.Layout.Style
import IdlFormat.Setting.Value

/-!
# Reading layout settings

Each field is checked on its own, so that a record with two bad fields is reported with both.
-/

namespace IdlFormat

open Setting

namespace Style

/-- An indentation width: from one to sixteen spaces. -/
def checkWidth (number : Int) : Checked { width : Nat // 1 ≤ width ∧ width ≤ 16 } :=
  if valid : 1 ≤ number.toNat ∧ number.toNat ≤ 16 then .ok ⟨number.toNat, valid⟩
  else .fail (.refused
    (match Numeral.write? number with
    | some digits =>
        "Invalid indent_width: ".toList ++ digits ++ ". Must be between 1 and 16".toList
    | none => Numeral.unwritable))

theorem one_le_width (width : { width : Nat // 1 ≤ width ∧ width ≤ 16 }) : 1 ≤ width.1 :=
  width.2.1

theorem width_le_sixteen (width : { width : Nat // 1 ≤ width ∧ width ≤ 16 }) : width.1 ≤ 16 :=
  width.2.2

/-- A limit for attributes on one line: a positive number. -/
def checkLimit (number : Int) : Checked { limit : Nat // 0 < limit } :=
  if valid : 0 < number.toNat then .ok ⟨number.toNat, valid⟩
  else .fail (.refused "attribute_inline_limit must be positive".toList)

/-- The style of a checked width and a checked limit, with the problems of both. -/
def ofChecked (width : Checked { width : Nat // 1 ≤ width ∧ width ≤ 16 })
    (limit : Checked { limit : Nat // 0 < limit }) : Checked Style :=
  (Checked.both width limit).map fun (width, limit) =>
    ⟨width.1, limit.1, one_le_width width, width_le_sixteen width, limit.2⟩

/-- The style with a given width and limit. -/
def ofNumbers (width limit : Int) : Checked Style :=
  ofChecked ((checkWidth width).within "indent_width".toList)
    ((checkLimit limit).within "attribute_inline_limit".toList)

/-- The style that a record of settings describes. -/
def ofFields (fields : Table Value) : Checked Style :=
  ofChecked
    (Value.fieldOr fields "indent_width" (checkWidth 4) fun value =>
      value.integer.bind checkWidth)
    (Value.fieldOr fields "attribute_inline_limit" (checkLimit 60) fun value =>
      value.integer.bind checkLimit)

/-- The style that a value describes. -/
def ofValue : Value → Checked Style
  | .record fields => ofFields fields
  | _ => .fail (.notRecord "StyleConfig")

end Style

end IdlFormat
