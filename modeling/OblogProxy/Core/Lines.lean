import Mathlib

/-!
# Lines of a text file

A file that is written line by line ends every line with a terminator.  A reader that
takes the file apart again gets the lines back, and whatever stands behind the last
terminator as one more line.
-/

namespace OblogProxy.Lines

open List

section Terminated

variable {α : Type*} (newline : α)

def terminated (lines : List (List α)) : List α :=
  lines.flatMap fun line => line ++ [newline]

@[simp]
theorem terminated_nil : terminated newline ([] : List (List α)) = [] := rfl

@[simp]
theorem terminated_cons (line : List α) (lines : List (List α)) :
    terminated newline (line :: lines) = line ++ newline :: terminated newline lines := by
  simp [terminated]

@[simp]
theorem terminated_append (front back : List (List α)) :
    terminated newline (front ++ back) = terminated newline front ++ terminated newline back :=
  flatMap_append

variable {newline}

theorem mem_terminated {lines : List (List α)} {char : α}
    (hchar : char ∈ terminated newline lines) : char = newline ∨ ∃ line ∈ lines, char ∈ line := by
  obtain ⟨line, hline, hmem⟩ := mem_flatMap.mp hchar
  rcases mem_append.mp hmem with hinside | hend
  · exact Or.inr ⟨line, hline, hinside⟩
  · exact Or.inl (mem_singleton.mp hend)

/-- A text tells where its first line ends. -/
theorem append_cons_inj {left right leftRest rightRest : List α} (hleft : newline ∉ left)
    (hright : newline ∉ right) (heq : left ++ newline :: leftRest = right ++ newline :: rightRest) :
    left = right ∧ leftRest = rightRest := by
  induction left generalizing right with
  | nil =>
    cases right with
    | nil => exact ⟨rfl, (cons.inj heq).2⟩
    | cons char right => exact absurd ((cons.inj heq).1 ▸ mem_cons_self) hright
  | cons char left ih =>
    cases right with
    | nil => exact absurd ((cons.inj heq).1 ▸ mem_cons_self) hleft
    | cons other right =>
      obtain ⟨rfl, htail⟩ := cons.inj heq
      obtain ⟨rfl, hrest⟩ := ih (not_mem_of_not_mem_cons hleft)
        (not_mem_of_not_mem_cons hright) htail
      exact ⟨rfl, hrest⟩

/-- Every text is made of terminated lines and what stands behind the last of them. -/
theorem exists_terminated_append (newline : α) (text : List α) :
    ∃ lines last, text = terminated newline lines ++ last ∧
      (∀ line ∈ lines, newline ∉ line) ∧ newline ∉ last := by
  induction text with
  | nil => exact ⟨[], [], rfl, by simp, not_mem_nil⟩
  | cons char text ih =>
    obtain ⟨lines, last, rfl, hlines, hlast⟩ := ih
    rcases eq_or_ne char newline with rfl | hne
    · refine ⟨[] :: lines, last, by simp, ?_, hlast⟩
      exact forall_mem_cons.mpr ⟨not_mem_nil, hlines⟩
    · cases lines with
      | nil => exact ⟨[], char :: last, rfl, hlines, by simp [hne.symm, hlast]⟩
      | cons line lines =>
        obtain ⟨hline, hrest⟩ := forall_mem_cons.mp hlines
        refine ⟨(char :: line) :: lines, last, by simp, ?_, hlast⟩
        exact forall_mem_cons.mpr ⟨by simp [hne.symm, hline], hrest⟩

/-- A text that breaks off ends within the first line or behind it. -/
theorem isPrefix_cases {text line rest : List α} (htext : text <+: line ++ newline :: rest) :
    text <+: line ∨ ∃ more, text = line ++ newline :: more ∧ more <+: rest := by
  obtain ⟨behind, heq⟩ := htext
  rcases append_eq_append_iff.mp heq with ⟨missing, hline, -⟩ | ⟨more, htext, hrest⟩
  · exact Or.inl ⟨missing, hline.symm⟩
  · cases more with
    | nil => exact Or.inl (by rw [htext, append_nil])
    | cons char more =>
      obtain ⟨rfl, hmore⟩ := cons.inj hrest
      exact Or.inr ⟨more, htext, behind, hmore.symm⟩

end Terminated

variable {α : Type*} [DecidableEq α]

/-- What a loop over `getline` reads: a last line needs no terminator, but it is not
empty. -/
def getLines (newline : α) : List α → List (List α)
  | [] => []
  | char :: text =>
    if char = newline then [] :: getLines newline text
    else
      match getLines newline text with
      | [] => [[char]]
      | line :: lines => (char :: line) :: lines

variable {newline : α}

/-- All the terminators of a text that breaks off are there, so it breaks off behind
the last of them. -/
theorem exists_of_length_le_count {lines : List (List α)}
    (hlines : ∀ line ∈ lines, newline ∉ line) {text last : List α}
    (htext : text <+: terminated newline lines ++ last)
    (hcount : lines.length ≤ text.count newline) :
    ∃ more, text = terminated newline lines ++ more ∧ more <+: last := by
  induction lines generalizing text with
  | nil => exact ⟨text, rfl, htext⟩
  | cons line lines ih =>
    rw [forall_mem_cons] at hlines
    rw [terminated_cons, append_assoc, cons_append] at htext
    rcases isPrefix_cases htext with hline | ⟨more, rfl, hmore⟩
    · have hzero := count_eq_zero_of_not_mem fun hmem => hlines.1 (hline.subset hmem)
      rw [hzero] at hcount
      cases hcount
    · rw [count_append, count_eq_zero_of_not_mem hlines.1, count_cons_self, length_cons] at hcount
      obtain ⟨rest, rfl, hrest⟩ := ih hlines.2 hmore (by omega)
      exact ⟨rest, by simp, hrest⟩

/-- Terminated pieces and a last one are what the text is split into. -/
theorem splitOn_terminated_append {lines : List (List α)}
    (hlines : ∀ line ∈ lines, newline ∉ line) {last : List α} (hlast : newline ∉ last) :
    (terminated newline lines ++ last).splitOn newline = lines ++ [last] := by
  induction lines with
  | nil => exact splitOn_eq_singleton hlast
  | cons line lines ih =>
    rw [forall_mem_cons] at hlines
    rw [terminated_cons, append_assoc, cons_append,
      splitOn_append_cons_self_of_not_mem hlines.1, ih hlines.2, cons_append]

theorem getLines_line {line : List α} (hline : newline ∉ line) (text : List α) :
    getLines newline (line ++ newline :: text) = line :: getLines newline text := by
  induction line with
  | nil => simp [getLines]
  | cons char line ih =>
    rw [mem_cons, not_or] at hline
    rw [cons_append, getLines, if_neg (Ne.symm hline.1), ih hline.2]

theorem getLines_unterminated {tail : List α} (htail : newline ∉ tail) (hne : tail ≠ []) :
    getLines newline tail = [tail] := by
  induction tail with
  | nil => exact absurd rfl hne
  | cons char tail ih =>
    rw [mem_cons, not_or] at htail
    rw [getLines, if_neg (Ne.symm htail.1)]
    rcases eq_or_ne tail [] with rfl | htailNe
    · rfl
    · rw [ih htail.2 htailNe]

/-- Terminated lines are read back, then what follows them. -/
theorem getLines_terminated_append {lines : List (List α)}
    (hlines : ∀ line ∈ lines, newline ∉ line) (text : List α) :
    getLines newline (terminated newline lines ++ text) = lines ++ getLines newline text := by
  induction lines with
  | nil => rfl
  | cons line lines ih =>
    rw [forall_mem_cons] at hlines
    rw [terminated_cons, append_assoc, cons_append, getLines_line hlines.1,
      ih hlines.2, cons_append]

theorem getLines_terminated {lines : List (List α)} (hlines : ∀ line ∈ lines, newline ∉ line) :
    getLines newline (terminated newline lines) = lines := by
  simpa [getLines] using getLines_terminated_append hlines []

end OblogProxy.Lines
