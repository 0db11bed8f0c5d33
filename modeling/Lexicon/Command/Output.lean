/-!
# Line output

Text written to an output stream piece by piece: `write` adds text as it is, `print` adds it
and ends the line.
-/

namespace Lexicon

/-- The text written so far. -/
structure Output where
  text : String := ""
  deriving Repr, DecidableEq

namespace Output

/-- Adds `s` as it is. -/
def write (o : Output) (s : String) : Output := ⟨o.text ++ s⟩

/-- Adds `s` and a line feed. -/
def print (o : Output) (s : String) : Output := ⟨o.text ++ s ++ "\n"⟩

/-- Prints each of `lines`. -/
def printAll (o : Output) (lines : List String) : Output := lines.foldl print o

@[simp] theorem text_write (o : Output) (s : String) : (o.write s).text = o.text ++ s := rfl

@[simp] theorem text_print (o : Output) (s : String) : (o.print s).text = o.text ++ s ++ "\n" :=
  rfl

/-- Printing lines adds each of them with its line feed, in order. -/
theorem text_printAll (o : Output) (lines : List String) :
    (o.printAll lines).text = o.text ++ String.join (lines.map (· ++ "\n")) := by
  induction lines generalizing o with
  | nil => simp [printAll]
  | cons l rest ih =>
    simp only [printAll, List.foldl_cons] at ih ⊢
    rw [ih]
    simp [String.append_assoc]

end Output

end Lexicon
