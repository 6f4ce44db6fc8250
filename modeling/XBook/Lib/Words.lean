import Mathlib.Data.List.Basic

/-!
# Words of a list

The words of a list are its maximal parts without a separator, in their order. `words_cases` takes
the first one off, as a scanner does that skips the separators and then the word.
-/

namespace Words

variable {α : Type*} [DecidableEq α] {sep : α}

/-- The maximal parts of a list without the separator. -/
def words (sep : α) (l : List α) : List (List α) := (l.splitOn sep).filter (· ≠ [])

theorem words_cons_sep (l : List α) : words sep (sep :: l) = words sep l := by
  have hsplit : (sep :: l).splitOn sep = [] :: l.splitOn sep :=
    List.splitOn_append_cons_self_of_not_mem List.not_mem_nil l
  rw [words, hsplit, List.filter_cons_of_neg (by simp), words]

/-- The separators in front do not count. -/
theorem words_drop_while (l : List α) : words sep (l.dropWhile (· = sep)) = words sep l := by
  induction l with
  | nil => rfl
  | cons c l ih =>
      by_cases hc : c = sep
      · rw [hc, List.dropWhile_cons_of_pos (by simp), words_cons_sep]
        exact ih
      · rw [List.dropWhile_cons_of_neg (by simpa using hc)]

theorem words_nil : words sep [] = [] := by
  rw [words, List.splitOn_eq_singleton List.not_mem_nil]
  rfl

/-- A word that ends the list. -/
theorem words_last {w : List α} (hne : w ≠ []) (hw : sep ∉ w) : words sep w = [w] := by
  rw [words, List.splitOn_eq_singleton hw, List.filter_singleton]
  simp [hne]

/-- A word with a separator behind it. -/
theorem words_append {w : List α} (hne : w ≠ []) (hw : sep ∉ w) (r : List α) :
    words sep (w ++ sep :: r) = w :: words sep r := by
  rw [words, List.splitOn_append_cons_self_of_not_mem hw,
    List.filter_cons_of_pos (by simpa using hne), words]

/-- What a scanner comes to behind the separators: nothing, a last word, or a word with a separator
behind it. -/
inductive Scan (sep : α) (l : List α) : Prop where
  | none : l.dropWhile (· = sep) = [] → words sep l = [] → Scan sep l
  | last (w : List α) : w ≠ [] → sep ∉ w → l.dropWhile (· = sep) = w → words sep l = [w] →
      Scan sep l
  | more (w r : List α) : w ≠ [] → sep ∉ w → l.dropWhile (· = sep) = w ++ sep :: r →
      words sep l = w :: words sep r → Scan sep l

theorem words_cases (sep : α) (l : List α) : Scan sep l := by
  have hwords : words sep (l.dropWhile (· = sep)) = words sep l := words_drop_while l
  cases hrest : l.dropWhile (· = sep) with
  | nil =>
      rw [hrest, words_nil] at hwords
      exact .none hrest hwords.symm
  | cons c rest =>
      have hc : c ≠ sep := by
        have hhead := List.head?_dropWhile_not (fun c => decide (c = sep)) l
        rw [hrest] at hhead
        simpa using hhead
      by_cases hmem : sep ∈ c :: rest
      · obtain ⟨w, r, heq, hw⟩ := List.eq_append_cons_of_mem hmem
        have hne : w ≠ [] := by
          rintro rfl
          exact hc (List.cons.inj heq).1
        rw [hrest, heq, words_append hne hw] at hwords
        exact .more w r hne hw (hrest.trans heq) hwords.symm
      · rw [hrest, words_last (List.cons_ne_nil c rest) hmem] at hwords
        exact .last (c :: rest) (List.cons_ne_nil c rest) hmem hrest hwords.symm

end Words
