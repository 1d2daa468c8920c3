import Famicom.Proofs.Toml.Numbers
import Famicom.Toml.Document

/-!
# Lines of a document

The documents that are written consist of headers, entries and empty lines. Each of these lines has
tokens of its own, and reading them does to a document what the line says.

* `Line.IsWritable.reads`: what reading one line does.
* `reads_lines`: what reading lines one after the other does.
* `read?_lines`: a text of lines is read as what the lines make of the empty document.
-/

namespace Famicom.Toml

/-! ## Lines -/

/-- A line of the documents that are written. -/
inductive Line where
  | blank
  | header (name : Key)
  | entry (key : Key) (value : Scalar)
  deriving DecidableEq, Repr

/-- The text of a line. -/
def Line.toText : Line → List Char
  | .blank => ['\n']
  | .header name => '[' :: name ++ "]\n".toList
  | .entry key value => entryText key value

/-- The document with one more line. -/
def Document.write? (document : Document) : Line → Option Document
  | .blank => some document
  | .header name => (document.root.openTable? [] name).map fun root => ⟨root, [name]⟩
  | .entry key value => document.assign? [] key (.scalar value)

/-! ## Characters -/

theorem isWordChar_of_isKeyChar {c : Char} (h : isKeyChar c) : isWordChar c := by
  have hmark : mark? c = none := by
    unfold mark?
    split <;> first | rfl | exact absurd h (by decide)
  have hquote : quoteOf? c = none := by
    unfold quoteOf?
    split <;> first | rfl | exact absurd h (by decide)
  have hcomment : c ≠ '#' := by
    rintro rfl
    exact absurd h (by decide)
  simp [isWordChar, hmark, hquote, hcomment]

theorem isKeyChar_of_isDigit {c : Char} (h : c.isDigit) : isKeyChar c := by
  simp [isKeyChar, Char.isAlphanum, h]

/-- A name that needs no quotes. -/
structure IsBare (name : Key) : Prop where
  ne_nil : name ≠ []
  all : ∀ c ∈ name, isKeyChar c

instance (name : Key) : Decidable (IsBare name) :=
  decidable_of_iff (name ≠ [] ∧ name.all isKeyChar = true)
    ⟨fun h => ⟨h.1, List.all_eq_true.mp h.2⟩, fun h => ⟨h.ne_nil, List.all_eq_true.mpr h.all⟩⟩

/-- The characters of a string that stand for themselves. -/
def IsLiteral (chars : List Char) : Prop := ∀ c ∈ chars, isPlain c ∧ c ≠ '"' ∧ c ≠ '\\'

instance (chars : List Char) : Decidable (IsLiteral chars) := List.decidableBAll _ chars

/-! ## Tokens of a scalar -/

theorem Mode.run?_trans {mode next last : Mode} {a b : List Char} {before behind : List Token}
    (ha : mode.run? a = some (next, before)) (hb : next.run? b = some (last, behind)) :
    mode.run? (a ++ b) = some (last, before ++ behind) := by
  simp [Mode.run?_append, ha, hb]

/-- Whether a scalar without quotes goes on over a token. -/
def Token.isWordPart : Token → Bool
  | .word _ | .dot => true
  | _ => false

theorem scalarWord_wordToken (word : List Char) (tokens : List Token) :
    scalarWord (wordToken word ++ tokens) =
      (word.reverse ++ (scalarWord tokens).1, (scalarWord tokens).2) := by
  cases word with
  | nil => rfl
  | cons c word => rfl

theorem isWordPart_wordToken {word : List Char} : ∀ t ∈ wordToken word, t.isWordPart := by
  cases word with
  | nil => simp [wordToken]
  | cons c word => simp [wordToken, Token.isWordPart]

/-- Words between dots are put together again. -/
theorem run?_dotted {chars : List Char} (h : ∀ c ∈ chars, isWordChar c ∨ c = '.')
    (word : List Char) :
    ∃ tokens, (Mode.outside word).run? (chars ++ ['\n']) =
        some (.outside [], tokens ++ [.newline]) ∧
      (∀ t ∈ tokens, t.isWordPart) ∧
      ∀ rest, scalarWord (tokens ++ .newline :: rest) =
        (word.reverse ++ chars, .newline :: rest) := by
  induction chars generalizing word with
  | nil =>
    refine ⟨wordToken word, by simp [Mode.run?, Mode.step, stepOutside, mark?],
      isWordPart_wordToken, ?_⟩
    intro rest
    rw [scalarWord_wordToken]
    rfl
  | cons c chars ih =>
    have hrest : ∀ d ∈ chars, isWordChar d ∨ d = '.' := fun d hd => h d (List.mem_cons_of_mem _ hd)
    rcases h c (List.mem_cons_self ..) with hword | rfl
    · obtain ⟨tokens, hrun, hparts, hscalar⟩ := ih hrest (c :: word)
      refine ⟨tokens, ?_, hparts, ?_⟩
      · simp [Mode.run?, Mode.step, stepOutside_wordChar hword, hrun]
      · intro rest
        rw [hscalar, List.reverse_cons, List.append_assoc]
        rfl
    · obtain ⟨tokens, hrun, hparts, hscalar⟩ := ih hrest []
      refine ⟨wordToken word ++ .dot :: tokens, ?_, ?_, ?_⟩
      · simp [Mode.run?, Mode.step, stepOutside, mark?, hrun]
      · intro t ht
        rcases List.mem_append.mp ht with hbefore | hbehind
        · exact isWordPart_wordToken t hbefore
        · rcases List.mem_cons.mp hbehind with rfl | hmem
          · rfl
          · exact hparts t hmem
      · intro rest
        rw [List.append_assoc, scalarWord_wordToken, List.cons_append, scalarWord, hscalar]
        rfl

theorem run?_literal {chars : List Char} (h : IsLiteral chars) (text : List Char) :
    (Mode.line .basic text).run? (chars ++ ['"']) =
      some (.outside [], [.text (text.reverse ++ chars) false]) := by
  induction chars generalizing text with
  | nil => simp [Mode.run?, Mode.step, stepLine, Quote.char]
  | cons c chars ih =>
    obtain ⟨hplain, hquote, hescape⟩ := h c (List.mem_cons_self ..)
    have hrest := ih (fun d hd => h d (List.mem_cons_of_mem _ hd)) (c :: text)
    simp [Mode.run?, Mode.step, stepLine, Quote.char, hplain, hquote, hescape, hrest]

/-- A string is one token. -/
theorem run?_string {chars : List Char} (h : IsLiteral chars) :
    (Mode.outside []).run? ('"' :: chars ++ ['"'] ++ ['\n']) =
      some (.outside [], [.text chars false, .newline]) := by
  cases chars with
  | nil => rfl
  | cons c chars =>
    obtain ⟨hplain, hquote, hescape⟩ := h c (List.mem_cons_self ..)
    have hrest := run?_literal (fun d hd => h d (List.mem_cons_of_mem _ hd)) [c]
    have hopen : (Mode.outside []).run? ['"', c] = some (.line .basic [c], []) := by
      simp [Mode.run?, Mode.step, stepOutside, mark?, quoteOf?, stepLine, Quote.char, hplain,
        hquote, hescape]
    have htext : '"' :: (c :: chars) ++ ['"'] ++ ['\n'] =
        ['"', c] ++ (chars ++ ['"'] ++ ['\n']) := by
      simp
    rw [htext]
    exact Mode.run?_trans hopen (Mode.run?_trans hrest rfl)

/-- Whether a scalar can be written and read. -/
def Scalar.IsWritable : Scalar → Prop
  | .text chars => IsLiteral chars
  | .integer n => fits 128 n
  | .real x => x.IsNumber
  | .boolean _ => True
  | .moment _ | .unreadable _ => False

/-- Words between dots, of characters that a key may have. -/
def IsWord (chars : List Char) : Prop := chars ≠ [] ∧ ∀ c ∈ chars, isKeyChar c ∨ c = '.'

theorem isWord_of_all {chars : List Char} (hne : chars ≠ []) (h : chars.all isKeyChar = true) :
    IsWord chars := by
  refine ⟨hne, ?_⟩
  intro c hc
  exact .inl (List.all_eq_true.mp h c hc)

theorem isWord_signed (negative : Bool) {unsigned : List Char} (h : Decimal.IsNumeral unsigned) :
    IsWord (Decimal.signed negative unsigned) := by
  refine ⟨Decimal.signed_ne_nil h.ne_nil, ?_⟩
  intro c hc
  rcases Decimal.mem_signed hc with rfl | hunsigned
  · exact .inl (by decide)
  · exact (h.mem c hunsigned).imp_left isKeyChar_of_isDigit

theorem isWord_integerText (n : Int) : IsWord (integerText n) := by
  rw [integerText_eq]
  exact isWord_signed _ (Decimal.isNumeral_digitsOf _)

theorem isWord_realText {x : ExtendedDecimal} (h : x.IsNumber) : IsWord (realText x) := by
  cases x with
  | undefined => exact h.elim
  | infinite negative => cases negative <;> exact isWord_of_all (by decide) rfl
  | finite d =>
    obtain ⟨whole, fraction, htext, hpoint, -⟩ := Decimal.positional_spec h.1
    show IsWord d.positional
    rw [htext]
    exact isWord_signed _ hpoint.isNumeral

/-- What is written for a scalar that is not a string is words between dots. -/
theorem Scalar.isWord_toText {s : Scalar} (h : s.IsWritable) (hstring : ∀ chars, s ≠ .text chars) :
    IsWord s.toText ∧ ofWord? s.toText = some s := by
  cases s with
  | text chars => exact absurd rfl (hstring chars)
  | integer n => exact ⟨isWord_integerText n, ofWord?_integerText h⟩
  | real x => exact ⟨isWord_realText h, ofWord?_realText h⟩
  | boolean b => cases b <;> exact ⟨isWord_of_all (by decide) rfl, rfl⟩
  | moment written => exact h.elim
  | unreadable written => exact h.elim

theorem value?_of_isWordPart {t : Token} (h : t.isWordPart) (tokens : List Token) :
    value? maxDepth (skipBlanks (t :: tokens)) =
      (Scalar.ofWord? (scalarWord (t :: tokens)).1).map fun scalar =>
        (.scalar scalar, (scalarWord (t :: tokens)).2) := by
  have hscalar : scalar? (t :: tokens) =
      (Scalar.ofWord? (scalarWord (t :: tokens)).1).map fun scalar =>
        (scalar, (scalarWord (t :: tokens)).2) := by
    cases t with
    | word chars => simp [scalar?, Option.map_eq_bind]
    | dot => simp [scalar?, Option.map_eq_bind]
    | _ => simp [Token.isWordPart] at h
  have hvalue : value? maxDepth (skipBlanks (t :: tokens)) =
      (scalar? (t :: tokens)).map fun read => (.scalar read.1, read.2) := by
    cases t with
    | word chars => simp [skipBlanks, Token.isBlank, value?, Option.map_eq_bind]
    | dot => simp [skipBlanks, Token.isBlank, value?, Option.map_eq_bind]
    | _ => simp [Token.isWordPart] at h
  rw [hvalue, hscalar, Option.map_map]
  rfl

/-- A scalar that is written can be read. -/
theorem Scalar.IsWritable.reads {s : Scalar} (h : s.IsWritable) :
    ∃ tokens, (Mode.outside []).run? (s.toText ++ ['\n']) =
        some (.outside [], tokens ++ [.newline]) ∧
      ∀ rest, value? maxDepth (skipBlanks (tokens ++ .newline :: rest)) =
        some (.scalar s, .newline :: rest) := by
  by_cases hstring : ∃ chars, s = .text chars
  · obtain ⟨chars, rfl⟩ := hstring
    exact ⟨[.text chars false], run?_string h, fun rest => rfl⟩
  · have hne : ∀ chars, s ≠ .text chars := fun chars hs => hstring ⟨chars, hs⟩
    obtain ⟨⟨hnonempty, hchars⟩, hread⟩ := isWord_toText h hne
    obtain ⟨tokens, hrun, hparts, hscalar⟩ :=
      run?_dotted (fun c hc => (hchars c hc).imp_left isWordChar_of_isKeyChar) []
    refine ⟨tokens, hrun, ?_⟩
    intro rest
    have hword := hscalar rest
    cases tokens with
    | nil => exact absurd (congrArg Prod.fst hword).symm hnonempty
    | cons t tokens =>
      have ht := hparts t (List.mem_cons_self ..)
      rw [List.cons_append] at hword ⊢
      rw [value?_of_isWordPart ht, hword]
      show (ofWord? s.toText).map _ = _
      rw [hread]
      rfl

/-! ## Tokens of a line -/

theorem dottedKey?_of_isBare {key : Key} (h : IsBare key) {rest : List Token}
    (hrest : (skipBlanks rest).head? ≠ some .dot) :
    dottedKey? (.word key :: rest) = some ([], key, skipBlanks rest) := by
  have hkey : key.all isKeyChar = true := List.all_eq_true.mpr h.all
  have hmore : moreKeyParts? maxDepth rest = some ([], skipBlanks rest) := by
    show moreKeyParts? (79 + 1) rest = _
    unfold moreKeyParts?
    split
    · next behind hdot =>
      rw [hdot] at hrest
      exact absurd rfl hrest
    · rfl
  have hword : skipBlanks (.word key :: rest) = .word key :: rest := rfl
  unfold dottedKey?
  simp [hword, keyPart?, hkey, hmore]

/-- Whether a line can be written and read. -/
def Line.IsWritable : Line → Prop
  | .blank => True
  | .header name => IsBare name
  | .entry key value => IsBare key ∧ value.IsWritable

theorem Document.lines?_blank (document : Document) (bound : Nat) (rest : List Token) :
    document.lines? bound (.newline :: rest) = document.lines? bound rest := by
  cases bound with
  | zero => rfl
  | succ bound =>
    have hskip : skipLines (.newline :: rest) = skipLines rest := rfl
    unfold Document.lines?
    rw [hskip]

theorem run?_isBare {name : Key} (h : IsBare name) (token : Token) {c : Char}
    (hc : mark? c = some token) :
    (Mode.outside []).run? (name ++ [c]) = some (.outside [], [.word name, token]) := by
  have hword : (Mode.outside []).run? name = some (.outside name.reverse, []) := by
    rw [Mode.run?_word fun c hc => isWordChar_of_isKeyChar (h.all c hc), List.append_nil]
  have hmark : (Mode.outside name.reverse).run? [c] =
      some (.outside [], [.word name, token]) := by
    simp [Mode.run?, Mode.step, stepOutside, hc, wordToken, h.ne_nil]
  exact Mode.run?_trans hword hmark

theorem Document.line?_header (document : Document) {name : Key} (h : IsBare name)
    (rest : List Token) :
    document.line? (.openBracket :: .word name :: .closeBracket :: .newline :: rest) =
      (document.write? (.header name)).map (·, .newline :: rest) := by
  have hclose : skipBlanks (.closeBracket :: .newline :: rest) =
      .closeBracket :: .newline :: rest := rfl
  have hkey : dottedKey? (.word name :: .closeBracket :: .newline :: rest) =
      some ([], name, .closeBracket :: .newline :: rest) :=
    dottedKey?_of_isBare h (by simp [hclose])
  simp [line?, tableHeader?, write?, hkey, hclose, Option.map_eq_bind, Option.bind_assoc]

theorem Document.line?_entry (document : Document) {key : Key} (h : IsBare key) {value : Scalar}
    {tokens : List Token} (rest : List Token)
    (hread : value? maxDepth (skipBlanks (tokens ++ .newline :: rest)) =
      some (.scalar value, .newline :: rest)) :
    document.line? (.word key :: .space :: .equals :: .space :: (tokens ++ .newline :: rest)) =
      (document.write? (.entry key value)).map (·, .newline :: rest) := by
  have hequals : skipBlanks (.space :: .equals :: .space :: (tokens ++ .newline :: rest)) =
      .equals :: .space :: (tokens ++ .newline :: rest) := rfl
  have hspace : skipBlanks (.space :: (tokens ++ .newline :: rest)) =
      skipBlanks (tokens ++ .newline :: rest) := rfl
  have hkey :
      dottedKey? (.word key :: .space :: .equals :: .space :: (tokens ++ .newline :: rest)) =
      some ([], key, .equals :: .space :: (tokens ++ .newline :: rest)) :=
    dottedKey?_of_isBare h (by simp [hequals])
  have hself : skipBlanks (.equals :: .space :: (tokens ++ .newline :: rest)) =
      .equals :: .space :: (tokens ++ .newline :: rest) := rfl
  simp [line?, assignment?, write?, hkey, hself, hspace, hread, Option.map_eq_bind]

/-- A line that is not empty ends at the end of a line. -/
theorem Document.lines?_of_line? {document : Document} {bound : Nat} {t : Token}
    {tokens rest : List Token} {next : Option Document}
    (hskip : skipLines (t :: tokens) = t :: tokens)
    (hline : document.line? (t :: tokens) = next.map (·, .newline :: rest)) :
    document.lines? (bound + 1) (t :: tokens) = next.bind (·.lines? bound rest) := by
  have hend : endOfLine? (.newline :: rest) = some rest := rfl
  rw [lines?, hskip]
  simp [hline, hend, Option.map_eq_bind, Option.bind_assoc]

/-- What reading one line does. -/
theorem Line.IsWritable.reads {line : Line} (h : line.IsWritable) (hblank : line ≠ .blank) :
    ∃ tokens, tokens ≠ [] ∧ (Mode.outside []).run? line.toText = some (.outside [], tokens) ∧
      ∀ (document : Document) (bound : Nat) (rest : List Token),
        document.lines? (bound + 1) (tokens ++ rest) =
          (document.write? line).bind (·.lines? bound rest) := by
  cases line with
  | blank => exact absurd rfl hblank
  | header name =>
    refine ⟨[.openBracket, .word name, .closeBracket, .newline], by simp, ?_, ?_⟩
    · have hopen : (Mode.outside []).run? ['['] = some (.outside [], [.openBracket]) := rfl
      have hclose : (Mode.outside []).run? ['\n'] = some (.outside [], [.newline]) := rfl
      have htext : Line.toText (.header name) = ['['] ++ ((name ++ [']']) ++ ['\n']) := by
        simp [Line.toText]
      rw [htext]
      exact Mode.run?_trans hopen (Mode.run?_trans (run?_isBare h .closeBracket rfl) hclose)
    · intro document bound rest
      exact Document.lines?_of_line? rfl (document.line?_header h rest)
  | entry key value =>
    obtain ⟨hkey, hvalue⟩ := h
    obtain ⟨tokens, hrun, hread⟩ := hvalue.reads
    refine ⟨[.word key, .space] ++ ([.equals, .space] ++ (tokens ++ [.newline])), by simp, ?_, ?_⟩
    · have hequals :
          (Mode.outside []).run? ['=', ' '] = some (.outside [], [.equals, .space]) := rfl
      have htext : Line.toText (.entry key value) =
          (key ++ [' ']) ++ (['=', ' '] ++ (value.toText ++ ['\n'])) := by
        simp [Line.toText, entryText]
      rw [htext]
      exact Mode.run?_trans (run?_isBare hkey .space rfl) (Mode.run?_trans hequals hrun)
    · intro document bound rest
      have htokens : [.word key, .space] ++ ([.equals, .space] ++ (tokens ++ [.newline])) ++ rest =
          .word key :: .space :: .equals :: .space :: (tokens ++ .newline :: rest) := by simp
      rw [htokens]
      exact Document.lines?_of_line? rfl (document.line?_entry hkey rest (hread rest))

/-- What reading lines one after the other does. -/
theorem reads_lines {lines : List Line} (h : ∀ line ∈ lines, line.IsWritable) :
    ∃ tokens, (Mode.outside []).run? (lines.flatMap Line.toText) = some (.outside [], tokens) ∧
      lines.length ≤ tokens.length ∧
      ∀ (document : Document) (bound : Nat), lines.length < bound →
        document.lines? bound tokens = lines.foldlM Document.write? document := by
  induction lines with
  | nil =>
    refine ⟨[], rfl, Nat.le_refl _, ?_⟩
    intro document bound hbound
    obtain ⟨bound, rfl⟩ := Nat.exists_eq_succ_of_ne_zero (Nat.ne_of_gt hbound)
    rfl
  | cons line lines ih =>
    obtain ⟨tokens, hrun, hlength, hread⟩ := ih fun l hl => h l (List.mem_cons_of_mem _ hl)
    by_cases hblank : line = .blank
    · subst hblank
      have hfirst : (Mode.outside []).run? (Line.toText .blank) =
          some (.outside [], [.newline]) := rfl
      refine ⟨.newline :: tokens, Mode.run?_trans hfirst hrun, Nat.succ_le_succ hlength, ?_⟩
      intro document bound hbound
      rw [Document.lines?_blank]
      exact hread document bound (Nat.lt_of_succ_lt hbound)
    · obtain ⟨first, hne, hfirst, hline⟩ := (h line (List.mem_cons_self ..)).reads hblank
      refine ⟨first ++ tokens, Mode.run?_trans hfirst hrun, ?_, ?_⟩
      · have hpos := List.length_pos_iff.mpr hne
        simp only [List.length_cons, List.length_append]
        omega
      · intro document bound hbound
        obtain ⟨bound, rfl⟩ := Nat.exists_eq_succ_of_ne_zero (Nat.ne_zero_of_lt hbound)
        rw [hline, List.foldlM_cons]
        cases document.write? line with
        | none => rfl
        | some next => exact hread next bound (Nat.lt_of_succ_lt_succ hbound)

/-! ## The text of lines -/

theorem isKeyChar_ne {c d : Char} (hc : isKeyChar c) (hd : isKeyChar d = false) : c ≠ d := by
  rintro rfl
  rw [hc] at hd
  exact absurd hd (by decide)

theorem IsBare.notMem {name : Key} (h : IsBare name) {c : Char} (hc : isKeyChar c = false) :
    c ∉ name := by
  intro hmem
  exact isKeyChar_ne (h.all c hmem) hc rfl

theorem Scalar.IsWritable.return_notMem {s : Scalar} (h : s.IsWritable) : '\r' ∉ s.toText := by
  by_cases hstring : ∃ chars, s = .text chars
  · obtain ⟨chars, rfl⟩ := hstring
    intro hmem
    have hchars : '\r' ∈ chars := by simpa [toText] using hmem
    exact absurd (h _ hchars).1 (by decide)
  · intro hmem
    have hword := (isWord_toText h fun chars hs => hstring ⟨chars, hs⟩).1
    rcases hword.2 _ hmem with hkey | hdot
    · exact absurd hkey (by decide)
    · exact absurd hdot (by decide)

/-- No line holds a carriage return, and none begins with a byte order mark. -/
theorem Line.IsWritable.plain {line : Line} (h : line.IsWritable) :
    '\r' ∉ line.toText ∧ ∃ c rest, line.toText = c :: rest ∧ c ≠ '\ufeff' := by
  cases line with
  | blank => exact ⟨by decide, '\n', [], rfl, by decide⟩
  | header name =>
    have hname := h.notMem (show isKeyChar '\r' = false by decide)
    exact ⟨by simp [toText, hname], '[', _, rfl, by decide⟩
  | entry key value =>
    obtain ⟨hkey, hvalue⟩ := h
    have hreturn := hkey.notMem (show isKeyChar '\r' = false by decide)
    have hnone : '\r' ∉ (entry key value).toText := by
      simp [toText, entryText, hreturn, hvalue.return_notMem]
    obtain ⟨c, rest, rfl⟩ := List.exists_cons_of_ne_nil hkey.ne_nil
    have hc : c ≠ '\ufeff' := isKeyChar_ne (hkey.all c (List.mem_cons_self ..)) (by decide)
    exact ⟨hnone, c, _, rfl, hc⟩

theorem plainText?_lines {lines : List Line} (h : ∀ line ∈ lines, line.IsWritable) :
    plainText? (lines.flatMap Line.toText) = some (lines.flatMap Line.toText) := by
  have hreturn : '\r' ∉ lines.flatMap Line.toText := by
    intro hmem
    obtain ⟨line, hline, hmem⟩ := List.mem_flatMap.mp hmem
    exact (h line hline).plain.1 hmem
  have hmark : withoutMark (lines.flatMap Line.toText) = lines.flatMap Line.toText := by
    cases lines with
    | nil => rfl
    | cons line lines =>
      obtain ⟨-, c, rest, htext, hc⟩ := (h line (List.mem_cons_self ..)).plain
      rw [List.flatMap_cons, htext]
      exact if_neg hc
  unfold plainText?
  rw [hmark]
  exact lineFeeds?_of_not_mem hreturn

/-- A text of lines is read as what the lines make of the empty document. -/
theorem read?_lines {lines : List Line} (h : ∀ line ∈ lines, line.IsWritable) :
    read? (lines.flatMap Line.toText) =
      (lines.foldlM Document.write? Document.empty).map Document.root := by
  obtain ⟨tokens, hrun, hlength, hread⟩ := reads_lines h
  have htokens : tokens? (lines.flatMap Line.toText) = some tokens := by
    have hfinish : (Mode.outside []).finish? = some [] := rfl
    unfold tokens?
    simp [plainText?_lines h, hrun, hfinish]
  unfold read?
  simp [htokens, hread Document.empty (tokens.length + 1) (Nat.lt_succ_of_le hlength),
    Option.map_eq_bind]

end Famicom.Toml
