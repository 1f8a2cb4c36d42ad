/-
**Texts around a separator.**

`first ++ sep ++ last` determines `first` and `last` exactly if `sep` occurs in it only once. Another
occurrence may overlap the first one, by at most the `border`: the longest proper end of the separator
that fits what it is laid over (`Meets`).

* `Meets.occurs_before`, `Meets.occurs_after` — where something can begin before, or inside, a separator.
* `split_iff` — **when the text determines its two parts**.
-/

import Mathlib.Data.List.Infix

namespace Meter.Lib

section Separator

variable {α : Type} {sep ending border : List α}

/-- `border` is the longest proper end of `sep` with which `ending` can be laid over `sep`. -/
structure Meets (sep ending border : List α) : Prop where
  starts : border <+: ending
  ends : border <:+ sep
  shorter : border.length < sep.length
  longest : ∀ common, common <:+ sep → common ≠ sep → common <+: ending ∨ ending <+: common →
    common.length ≤ border.length

/-- The ends of a separator are its last pieces, so they can be tried one by one. -/
theorem Meets.of_pieces (starts : border <+: ending) (ends : border <:+ sep)
    (shorter : border.length < sep.length)
    (pieces : ∀ count < sep.length, 0 < count → sep.drop count <+: ending ∨ ending <+: sep.drop count →
      sep.length - count ≤ border.length) : Meets sep ending border where
  starts := starts
  ends := ends
  shorter := shorter
  longest := by
    intro common isEnd proper laid
    rw [List.suffix_iff_eq_drop] at isEnd
    by_cases none : common.length = 0
    · omega
    have bound : common.length ≤ sep.length := by
      rw [isEnd, List.length_drop]
      omega
    have less : common.length ≠ sep.length := fun same => proper (by rw [isEnd, same]; simp)
    rw [isEnd] at laid
    have piece := pieces (sep.length - common.length) (by omega) (by omega) laid
    omega

/-- What follows a separator does not matter. -/
theorem Meets.append (meets : Meets sep sep border) (more : List α) :
    Meets sep (sep ++ more) border where
  starts := meets.starts.trans (List.prefix_append _ _)
  ends := meets.ends
  shorter := meets.shorter
  longest := by
    intro common isEnd proper laid
    have bound := isEnd.length_le
    refine meets.longest common isEnd proper ?_
    rcases laid with before | after
    · exact .inl (List.prefix_of_prefix_length_le before (List.prefix_append _ _) bound)
    · exact .inr ((List.prefix_append _ _).trans after)

/-- **A separator that begins in a text** before `ending` is in the text with the border. -/
theorem Meets.occurs_before (meets : Meets sep ending border) (text : List α) :
    (∃ front rest, front.length < text.length ∧ front ++ (sep ++ rest) = text ++ ending) ↔
      sep <:+: text ++ border := by
  constructor
  · rintro ⟨front, rest, inside, same⟩
    rcases List.append_eq_append_iff.mp same with ⟨middle, rfl, inner⟩ | ⟨middle, rfl, _⟩
    · rcases List.append_eq_append_iff.mp inner with ⟨beyond, rfl, _⟩ | ⟨common, rfl, isEnding⟩
      · exact ⟨front, beyond ++ border, by simp⟩
      · have nonempty : middle ≠ [] := by
          rintro rfl
          simp at inside
        have short := meets.longest common (List.suffix_append _ _) (by simpa using nonempty)
          (.inl ⟨rest, isEnding.symm⟩)
        obtain ⟨left, isBorder⟩ :=
          List.prefix_of_prefix_length_le ⟨rest, isEnding.symm⟩ meets.starts short
        exact ⟨front, left, by rw [← isBorder]; simp⟩
    · rw [List.length_append] at inside
      omega
  · rintro ⟨front, rest, same⟩
    obtain ⟨left, rfl⟩ := meets.starts
    refine ⟨front, rest ++ left, ?_, ?_⟩
    · have lengths := congrArg List.length same
      have shorter := meets.shorter
      simp only [List.length_append] at lengths
      omega
    · rw [← List.append_assoc, ← List.append_assoc, ← List.append_assoc, same]

/-- **Something that begins after the start of a separator** is in the border with what follows. -/
theorem Meets.occurs_after (meets : Meets sep ending border) (text rest : List α) :
    (∃ front, front ≠ [] ∧ sep ++ text = front ++ (ending ++ rest)) ↔
      ∃ front, border ++ text = front ++ (ending ++ rest) := by
  constructor
  · rintro ⟨front, nonempty, same⟩
    rcases List.append_eq_append_iff.mp same with ⟨middle, rfl, isText⟩ | ⟨common, rfl, inner⟩
    · exact ⟨border ++ middle, by rw [isText, List.append_assoc]⟩
    · have laid : common <+: ending ∨ ending <+: common :=
        List.prefix_or_prefix_of_prefix ⟨text, inner.symm⟩ (List.prefix_append _ _)
      have short := meets.longest common (List.suffix_append _ _) (by simpa using nonempty) laid
      obtain ⟨left, isBorder⟩ :=
        List.suffix_of_suffix_length_le (List.suffix_append _ _) meets.ends short
      exact ⟨left, by rw [← isBorder, List.append_assoc, inner]⟩
  · rintro ⟨front, same⟩
    obtain ⟨left, rfl⟩ := meets.ends
    refine ⟨left ++ front, ?_, by rw [List.append_assoc, same, List.append_assoc]⟩
    rintro empty
    have shorter := meets.shorter
    simp [List.append_eq_nil_iff.mp empty] at shorter

/-- **When a text determines its two parts.** -/
theorem split_iff (meets : Meets sep sep border) (first last : List α) :
    (∀ first' last', first' ++ (sep ++ last') = first ++ (sep ++ last) →
      first' = first ∧ last' = last) ↔
      ¬ sep <:+: first ++ border ∧ ¬ sep <:+: border ++ last := by
  constructor
  · refine fun determined => ⟨fun occurs => ?_, fun ⟨front, rest, same⟩ => ?_⟩
    · obtain ⟨front, rest, inside, same⟩ := ((meets.append last).occurs_before first).mpr occurs
      rw [(determined front rest same).1] at inside
      omega
    · rw [List.append_assoc] at same
      obtain ⟨front', nonempty, same⟩ := (meets.occurs_after last rest).mpr ⟨front, same.symm⟩
      have other := (determined (first ++ front') rest (by rw [same, List.append_assoc])).1
      exact nonempty (List.append_right_eq_self.mp other)
  · rintro ⟨before, after⟩ first' last' same
    rcases Nat.lt_trichotomy first'.length first.length with less | equal | more
    · exact absurd (((meets.append last).occurs_before first).mp ⟨_, _, less, same⟩) before
    · obtain ⟨isFirst, rest⟩ := List.append_inj same equal
      exact ⟨isFirst, List.append_cancel_left rest⟩
    · refine absurd ?_ after
      rcases List.append_eq_append_iff.mp same.symm with ⟨middle, rfl, isSame⟩ | ⟨middle, rfl, _⟩
      · have nonempty : middle ≠ [] := by
          rintro rfl
          simp at more
        obtain ⟨front, isText⟩ := (meets.occurs_after last last').mp ⟨middle, nonempty, isSame⟩
        exact ⟨front, last', by rw [isText, List.append_assoc]⟩
      · rw [List.length_append] at more
        omega

end Separator

end Meter.Lib
