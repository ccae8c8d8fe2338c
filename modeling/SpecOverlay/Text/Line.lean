/-!
# Lines of a text

A line ends at a line feed.  A carriage return that stands directly before that
line feed belongs to the terminator and is dropped, so that both common line
endings give the same lines; any other carriage return is part of its line.
A text that ends in a terminator has no empty line after it.
-/

namespace SpecOverlay
namespace Text

/-- The lines of a text, without their terminators. -/
def lines : List Char → List (List Char)
  | [] => []
  | '\n' :: s => [] :: lines s
  | '\r' :: '\n' :: s => [] :: lines s
  | c :: s =>
    match lines s with
    | [] => [[c]]
    | l :: ls => (c :: l) :: ls

/-- The lines of a string. -/
def linesOf (s : String) : List String :=
  (lines s.toList).map String.ofList

/-- No line holds a line feed. -/
theorem newline_notMem_of_mem_lines {s l : List Char} (h : l ∈ lines s) : '\n' ∉ l := by
  induction s using lines.induct generalizing l with
  | case1 => simp [lines] at h
  | case2 s ih =>
    rw [lines] at h
    rcases List.mem_cons.1 h with rfl | h
    · simp
    · exact ih h
  | case3 s ih =>
    rw [lines] at h
    rcases List.mem_cons.1 h with rfl | h
    · simp
    · exact ih h
  | case4 c s hc hcr hs ih =>
    rw [lines, hs] at h
    · rcases List.mem_singleton.1 h with rfl
      simpa [eq_comm] using hc
    · exact hc
    · exact hcr
  | case5 c s hc hcr k ks hs ih =>
    rw [lines, hs] at h
    · rw [hs] at ih
      rcases List.mem_cons.1 h with rfl | h
      · simp only [List.mem_cons, not_or]
        exact ⟨fun e => hc e.symm, ih (by simp)⟩
      · exact ih (by simp [h])
    · exact hc
    · exact hcr

end Text
end SpecOverlay
