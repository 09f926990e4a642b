import Orm.Lookup
import Orm.Proofs.Chronology.Text
import Orm.Proofs.Outcome

/-
Dates and times in the columns of an engine that keeps them as texts and compares texts by their bytes.

The bytes are ordered as the times are, so that comparing stored texts and sorting by them is comparing and
sorting by time (`stored_chronologically`): a point in time ends in an offset, which is less than the point
of its decimal places and than every digit.
-/

namespace Orm

open Calendar

/-- Of two values of one kind of time, the first is the earlier one. -/
def Value.Earlier : Value → Value → Prop
  | .date a, .date b => a < b
  | .dateTime a, .dateTime b => a < b
  | .instant a, .instant b => a < b
  | .time a, .time b => a < b
  | _, _ => False

/-- The values of a field of dates or times, with years that have four digits. -/
inductive Moment : FieldType → Value → Prop
  | date {d : Date} (hyear : 0 ≤ d.year ∧ d.year ≤ 9999) : Moment .date (.date d)
  | dateTime {t : DateTime} (hyear : 0 ≤ t.date.year ∧ t.date.year ≤ 9999) :
    Moment .dateTime (.dateTime t)
  | instant {t : DateTime} (hyear : 0 ≤ t.date.year ∧ t.date.year ≤ 9999) :
    Moment .dateTimeTz (.instant t)
  | time (t : Time) : Moment .time (.time t)

/-- What an ordering lookup asks of the value in a column and its operand. -/
def Lookup.Asks (l : Lookup) (a b : Value) : Prop :=
  match l with
  | .gt => b.Earlier a
  | .gte => ¬a.Earlier b
  | .lt => a.Earlier b
  | .lte => ¬b.Earlier a
  | _ => False

def Lookup.orderings : List Lookup := [.gt, .gte, .lt, .lte]

namespace Sqlite

/-- The bytes of the text that a value is stored as. -/
def storedText (v : Value) : List UInt8 :=
  match (Cell.ofValue v).kept with
  | .text bytes => bytes
  | _ => []

/-- What a sign asks of the text in a column and the text of an operand: their bytes are compared, the first
difference deciding. -/
def Compares (sign : String) (column operand : List UInt8) : Prop :=
  match sign with
  | ">" => operand < column
  | ">=" => operand ≤ column
  | "<" => column < operand
  | "<=" => column ≤ operand
  | _ => column = operand

end Sqlite

open Sqlite

namespace Moment

theorem cell {f : FieldType} {v : Value} (h : Moment f v) :
    (Cell.ofValue v).kept = .text (storedText v) := by
  cases h <;> rfl

/-- The offset of a point in time is less than the point of a fraction. -/
theorem low_offset : Text.Low ['+', '0', '0', ':', '0', '0'] := by
  intro c hc
  cases hc
  decide

theorem text_lt {f : FieldType} {a b : Value} (ha : Moment f a) (hb : Moment f b)
    (h : a.Earlier b) : storedText a < storedText b := by
  cases ha with
  | date hyear =>
    cases hb with
    | date hyear' =>
      have hlt := Date.text_lt hyear.1 hyear'.2 h [] []
      rw [List.append_nil, List.append_nil] at hlt
      exact Text.utf8_lt_iff.2 hlt
  | dateTime hyear =>
    cases hb with
    | dateTime hyear' =>
      have hlt := DateTime.text_lt hyear.1 hyear'.2 h ' ' Text.low_nil []
      rw [List.append_nil, List.append_nil, ← DateTime.toList_spaced, ← DateTime.toList_spaced] at hlt
      exact Text.utf8_lt_iff.2 hlt
  | instant hyear =>
    cases hb with
    | instant hyear' =>
      have hlt := DateTime.text_lt hyear.1 hyear'.2 h 'T' low_offset ['+', '0', '0', ':', '0', '0']
      rw [← DateTime.toList_utc, ← DateTime.toList_utc] at hlt
      exact Text.utf8_lt_iff.2 hlt
  | time t =>
    cases hb with
    | time u =>
      have hlt := Time.text_lt h Text.low_nil []
      rw [List.append_nil, List.append_nil] at hlt
      exact Text.utf8_lt_iff.2 hlt

theorem trichotomy {f : FieldType} {a b : Value} (ha : Moment f a) (hb : Moment f b) :
    a.Earlier b ∨ a = b ∨ b.Earlier a := by
  cases ha with
  | date =>
    cases hb with
    | date => exact (Date.lt_trichotomy _ _).imp_right (Or.imp_left (congrArg Value.date))
  | dateTime =>
    cases hb with
    | dateTime => exact (DateTime.lt_trichotomy _ _).imp_right (Or.imp_left (congrArg Value.dateTime))
  | instant =>
    cases hb with
    | instant => exact (DateTime.lt_trichotomy _ _).imp_right (Or.imp_left (congrArg Value.instant))
  | time =>
    cases hb with
    | time => exact (Time.lt_trichotomy _ _).imp_right (Or.imp_left (congrArg Value.time))

theorem earlier_iff {f : FieldType} {a b : Value} (ha : Moment f a) (hb : Moment f b) :
    a.Earlier b ↔ storedText a < storedText b := by
  refine ⟨ha.text_lt hb, fun h => ?_⟩
  rcases ha.trichotomy hb with hlt | rfl | hgt
  · exact hlt
  · exact absurd h (List.lt_irrefl _)
  · exact absurd h (List.lt_asymm (hb.text_lt ha hgt))

theorem compares_iff {f : FieldType} {a b : Value} (ha : Moment f a) (hb : Moment f b)
    {l : Lookup} (hl : l ∈ Lookup.orderings) :
    Compares l.operator (storedText a) (storedText b) ↔ l.Asks a b := by
  simp only [Lookup.orderings, List.mem_cons, List.not_mem_nil, or_false] at hl
  rcases hl with rfl | rfl | rfl | rfl
  · exact (hb.earlier_iff ha).symm
  · exact (not_congr (ha.earlier_iff hb)).symm
  · exact (ha.earlier_iff hb).symm
  · exact (not_congr (hb.earlier_iff ha)).symm

theorem isList {f : FieldType} {v : Value} (h : Moment f v) : v.isList = false := by
  cases h <;> rfl

end Moment

theorem Lookup.write_ordering {l : Lookup} (hl : l ∈ orderings) {v : Value} (hv : v.isList = false)
    (column : Sql) (args : List Value) :
    outcome (l.write column [v]) args =
      (.ok (column ++ [.text (" " ++ l.operator ++ " "), .param (args.length + 1)]), args ++ [v]) := by
  have hoperand : l.operand [v] = .ok v := by
    cases v <;> first | rfl | cases hv
  simp only [orderings, List.mem_cons, List.not_mem_nil, or_false] at hl
  rcases hl with rfl | rfl | rfl | rfl
  all_goals
    rw [write, if_neg (by decide), outcome_bind, hoperand, outcome_mk_pure]
    simp only [pattern?]
    rw [outcome_bind, outcome_bindValue]
    rfl

/-- Among the values of a field of dates or times the earlier one has the lesser text. So an ordering lookup
holds of the stored texts if it holds of the values, and rows are in the order of their texts if they are in
the order of time. -/
theorem Sqlite.stored_chronologically {f : FieldType} {rows : List Value} (hrows : ∀ v ∈ rows, Moment f v) :
    (∀ v ∈ rows, (Cell.ofValue v).kept = .text (storedText v)) ∧
    (∀ a ∈ rows, ∀ b ∈ rows, (a.Earlier b ↔ storedText a < storedText b) ∧
      ∀ l ∈ Lookup.orderings, ∀ column args,
        outcome (l.write column [b]) args =
          (.ok (column ++ [.text (" " ++ l.operator ++ " "), .param (args.length + 1)]), args ++ [b]) ∧
        (Compares l.operator (storedText a) (storedText b) ↔ l.Asks a b)) ∧
    ((rows.map storedText).Pairwise (· ≤ ·) ↔ rows.Pairwise fun a b => ¬b.Earlier a) := by
  refine ⟨fun v hv => (hrows v hv).cell, fun a ha b hb => ?_, ?_⟩
  · refine ⟨(hrows a ha).earlier_iff (hrows b hb), fun l hl column args => ⟨?_, ?_⟩⟩
    · exact Lookup.write_ordering hl (hrows b hb).isList column args
    · exact (hrows a ha).compares_iff (hrows b hb) hl
  · rw [List.pairwise_map]
    refine List.Pairwise.iff_of_mem fun {a b} ha hb => ?_
    exact (not_congr ((hrows b hb).earlier_iff (hrows a ha))).symm

/-- The last second of 2016, without and with a fraction, its leap second, and the first second of 2017. -/
def leapNight : List Value :=
  [.instant ⟨leapInstant.date, ⟨86399, 0, by decide⟩⟩,
   .instant ⟨leapInstant.date, ⟨86399, 5000, by decide⟩⟩,
   .instant leapInstant,
   .instant ⟨⟨2017, 1, 1, by decide⟩, .midnight⟩]

/-- They are stored in their order, and the leap second is later than the fraction before it. -/
theorem leapNight_chronologically :
    (∀ v ∈ leapNight, Moment .dateTimeTz v) ∧
    leapNight.map storedText = ["2016-12-31T23:59:59+00:00", "2016-12-31T23:59:59.000005+00:00",
      "2016-12-31T23:59:60.500+00:00", "2017-01-01T00:00:00+00:00"].map Text.utf8 ∧
    (leapNight.map storedText).Pairwise (· ≤ ·) ∧
    Compares ">" (storedText leapNight[2]) (storedText leapNight[1]) := by
  have hmoments : ∀ v ∈ leapNight, Moment .dateTimeTz v := by
    intro v hv
    simp only [leapNight, List.mem_cons, List.not_mem_nil, or_false] at hv
    rcases hv with rfl | rfl | rfl | rfl <;> exact .instant (by decide)
  have hordered : leapNight.Pairwise fun a b => ¬b.Earlier a := by
    simp only [leapNight, List.pairwise_cons, List.mem_cons, List.not_mem_nil, or_false,
      forall_eq_or_imp, forall_eq, false_implies, implies_true, List.Pairwise.nil, and_true,
      Value.Earlier]
    decide +kernel
  have hlater : leapNight[1].Earlier leapNight[2] := by
    simp only [leapNight, Value.Earlier, List.getElem_cons_succ, List.getElem_cons_zero]
    decide +kernel
  obtain ⟨-, hpairs, hsorted⟩ := Sqlite.stored_chronologically hmoments
  obtain ⟨-, hlookups⟩ := hpairs leapNight[2] (List.getElem_mem _) leapNight[1] (List.getElem_mem _)
  have hcompares := (hlookups .gt (by decide) (.name "at") []).2
  exact ⟨hmoments, by decide +kernel, hsorted.2 hordered, hcompares.2 hlater⟩

end Orm
