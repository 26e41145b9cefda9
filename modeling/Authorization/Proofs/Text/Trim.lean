import Authorization.Text.Blank
import Mathlib.Data.List.DropRight

namespace Authorization

/-- A text is `body` with nothing but blanks around it, and no blank at either end of `body`. -/
structure Trimmed (cs body : List Char) : Prop where
  around : ∃ before after, cs = before ++ (body ++ after) ∧ (∀ c ∈ before, isBlank c = true) ∧
    ∀ c ∈ after, isBlank c = true
  first : ∀ c ∈ body.head?, isBlank c = false
  last : ∀ c ∈ body.getLast?, isBlank c = false

theorem trimBlanks_eq (cs : List Char) :
    trimBlanks cs = (cs.dropWhile isBlank).rdropWhile isBlank := rfl

theorem trimBlanks_before {before : List Char} (blank : ∀ c ∈ before, isBlank c = true)
    (cs : List Char) : trimBlanks (before ++ cs) = trimBlanks cs := by
  rw [trimBlanks_eq, List.dropWhile_append_of_pos blank, ← trimBlanks_eq]

theorem rdropWhile_after {after : List Char} (blank : ∀ c ∈ after, isBlank c = true)
    (cs : List Char) : (cs ++ after).rdropWhile isBlank = cs.rdropWhile isBlank := by
  have reversed : ∀ c ∈ after.reverse, isBlank c = true := fun c member =>
    blank c (List.mem_reverse.1 member)
  rw [List.rdropWhile, List.reverse_append, List.dropWhile_append_of_pos reversed,
    ← List.rdropWhile]

theorem trimmed_trimBlanks (cs : List Char) : Trimmed cs (trimBlanks cs) := by
  rw [trimBlanks_eq]
  refine ⟨⟨cs.takeWhile isBlank, (cs.dropWhile isBlank).rtakeWhile isBlank, ?_, ?_, ?_⟩, ?_, ?_⟩
  · rw [List.rdropWhile_append_rtakeWhile, List.takeWhile_append_dropWhile]
  · exact fun c member => List.mem_takeWhile_imp member
  · exact fun c member => List.mem_rtakeWhile_imp member
  · intro c member
    obtain ⟨after, whole⟩ := List.rdropWhile_prefix isBlank (cs.dropWhile isBlank)
    have head := List.head?_dropWhile_not isBlank cs
    rw [← whole, List.head?_append, member] at head
    exact head
  · intro c member
    obtain ⟨some, rfl⟩ := List.mem_getLast?_eq_getLast member
    exact Bool.eq_false_iff.2 (List.rdropWhile_last_not isBlank _ some)

theorem trimBlanks_eq_iff {cs body : List Char} : trimBlanks cs = body ↔ Trimmed cs body := by
  constructor
  · rintro rfl
    exact trimmed_trimBlanks cs
  · rintro ⟨⟨before, after, rfl, blank, blankToo⟩, first, last⟩
    rw [trimBlanks_before blank, trimBlanks_eq]
    cases body with
    | nil =>
      rw [List.nil_append, List.dropWhile_eq_nil_iff.2 blankToo, List.rdropWhile_nil]
    | cons c rest =>
      have kept : ¬ isBlank c = true := Bool.eq_false_iff.1 (first c rfl)
      rw [List.cons_append, List.dropWhile_cons_of_neg kept, ← List.cons_append,
        rdropWhile_after blankToo, List.rdropWhile_eq_self_iff]
      exact fun some => Bool.eq_false_iff.1 (last _ (List.getLast?_eq_some_getLast some))

theorem trimmed_of_plain {before body after : List Char} (blank : ∀ c ∈ before, isBlank c = true)
    (blankToo : ∀ c ∈ after, isBlank c = true) (plain : ∀ c ∈ body, isBlank c = false) :
    Trimmed (before ++ (body ++ after)) body where
  around := ⟨before, after, rfl, blank, blankToo⟩
  first c member := plain c (List.mem_of_mem_head? member)
  last c member := plain c (List.mem_of_mem_getLast? member)

theorem trimmed_nil_iff {cs : List Char} : Trimmed cs [] ↔ ∀ c ∈ cs, isBlank c = true := by
  constructor
  · rintro ⟨⟨before, after, rfl, blank, blankToo⟩, _, _⟩
    exact List.forall_mem_append.2 ⟨blank, blankToo⟩
  · exact fun blank => ⟨⟨cs, [], (List.append_nil cs).symm, blank, nofun⟩, nofun, nofun⟩

theorem trimBlanks_eq_self {cs : List Char} (plain : ∀ c ∈ cs, isBlank c = false) :
    trimBlanks cs = cs := by
  have trimmed : Trimmed ([] ++ (cs ++ [])) cs := trimmed_of_plain nofun nofun plain
  rw [List.nil_append, List.append_nil] at trimmed
  exact trimBlanks_eq_iff.2 trimmed

end Authorization
