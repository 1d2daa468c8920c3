/-!
# Lines of text

What is common to every place in a document: a line ends in a line feed, with or without a carriage
return before it, and a carriage return stands nowhere else. A byte order mark may come first.
-/

namespace Famicom.Toml

/-- The text with line feeds for line ends, if every carriage return ends a line. -/
def lineFeeds? : List Char → Option (List Char)
  | [] => some []
  | '\r' :: '\n' :: rest => (lineFeeds? rest).map ('\n' :: ·)
  | c :: rest => if c = '\r' then none else (lineFeeds? rest).map (c :: ·)

/-- The text behind a byte order mark. -/
def withoutMark : List Char → List Char
  | [] => []
  | c :: rest => if c = '\ufeff' then rest else c :: rest

/-- The text of a document in which nothing but a line feed ends a line. -/
def plainText? (text : List Char) : Option (List Char) := lineFeeds? (withoutMark text)

theorem lineFeeds?_of_not_mem {text : List Char} (h : '\r' ∉ text) :
    lineFeeds? text = some text := by
  induction text with
  | nil => rfl
  | cons c rest ih =>
    have hc : c ≠ '\r' := fun hc => h (by simp [hc])
    have hrest := ih fun hmem => h (List.mem_cons_of_mem _ hmem)
    unfold lineFeeds?
    split <;> simp_all

end Famicom.Toml
