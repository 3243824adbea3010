set_option autoImplicit false

/-!
# Lines

A text is cut into lines at a line feed, a carriage return, or the two in this
order as one break.  The break is no part of the line, and a last line without a
break counts unless it is empty.
-/

namespace Reckoner.Text

/-- Cuts off the first line: what it holds and what comes after its break. -/
def firstLine : List Char → List Char × List Char
  | [] => ([], [])
  | '\n' :: rest => ([], rest)
  | '\r' :: '\n' :: rest => ([], rest)
  | '\r' :: rest => ([], rest)
  | c :: rest =>
    let (line, after) := firstLine rest
    (c :: line, after)

theorem firstLine_length_le (cs : List Char) : (firstLine cs).2.length ≤ cs.length := by
  fun_induction firstLine cs <;> grind

theorem firstLine_length_lt (c : Char) (cs : List Char) :
    (firstLine (c :: cs)).2.length < (c :: cs).length := by
  have h := firstLine_length_le cs
  rw [firstLine.eq_def]
  split <;> grind

/-- All lines of a list of characters. -/
def lineChars : List Char → List (List Char)
  | [] => []
  | c :: cs => (firstLine (c :: cs)).1 :: lineChars (firstLine (c :: cs)).2
  termination_by cs => cs.length
  decreasing_by exact firstLine_length_lt c cs

/-- All lines of a text. -/
def lines (s : String) : List String := (lineChars s.toList).map String.ofList

/-! ## Lines put together -/

/-- Lines as one text, with a line feed after each. -/
def unlines (ls : List String) : String := String.join (ls.map (· ++ "\n"))

/-- A text without a character that ends a line. -/
def IsLine (s : String) : Prop := '\n' ∉ s.toList ∧ '\r' ∉ s.toList

instance (s : String) : Decidable (IsLine s) :=
  inferInstanceAs (Decidable (_ ∧ _))

theorem firstLine_append {cs : List Char} (hfeed : '\n' ∉ cs) (hreturn : '\r' ∉ cs)
    (rest : List Char) : firstLine (cs ++ '\n' :: rest) = (cs, rest) := by
  induction cs with
  | nil => rfl
  | cons c cs ih =>
    simp only [List.mem_cons, not_or] at hfeed hreturn
    rw [List.cons_append, firstLine, ih hfeed.2 hreturn.2]
    · exact fun h => hfeed.1 h.symm
    · exact fun _ h _ => hreturn.1 h.symm
    · exact fun h => hreturn.1 h.symm

theorem lineChars_append {cs : List Char} (hfeed : '\n' ∉ cs) (hreturn : '\r' ∉ cs)
    (rest : List Char) : lineChars (cs ++ '\n' :: rest) = cs :: lineChars rest := by
  have hfirst := firstLine_append hfeed hreturn rest
  cases cs with
  | nil => rw [List.nil_append, lineChars]; rfl
  | cons c cs =>
    rw [List.cons_append] at hfirst ⊢
    rw [lineChars, hfirst]

/-- Lines that are put together are the lines of the text. -/
theorem lines_unlines {ls : List String} (h : ∀ l ∈ ls, IsLine l) : lines (unlines ls) = ls := by
  induction ls with
  | nil => simp [lines, unlines, lineChars]
  | cons l ls ih =>
    obtain ⟨hfeed, hreturn⟩ := h l List.mem_cons_self
    have hrest : lines (unlines ls) = ls := ih fun l' hl' => h l' (List.mem_cons_of_mem _ hl')
    have hchars : (unlines (l :: ls)).toList = l.toList ++ '\n' :: (unlines ls).toList := by
      simp [unlines]
    rw [lines, hchars, lineChars_append hfeed hreturn, List.map_cons, String.ofList_toList]
    exact congrArg (List.cons l) hrest

end Reckoner.Text
