import Famicom.Proofs.Toml.Lines
import Mathlib.Data.List.Forall2
import Mathlib.Data.List.Nodup

/-!
# Documents of sections

A document that is written is read as a table with one table for each section. The same holds for
what is left of it when entries are deleted, or sections as a whole.

* `Section.join_eq`: the text of sections is that of their lines.
* `read?_sections`: how a text with the lines of sections is read.
* `Remains.exists_parts`: what is left of sections consists of parts of them.
-/

namespace Famicom.Toml

namespace Section

/-! ## Lines of sections -/

/-- The lines of a section. -/
def lines (s : Section) : List Line :=
  .header s.name :: s.entries.map fun (key, value) => .entry key value

/-- The lines of sections, with an empty line between them. -/
def allLines (sections : List Section) : List Line :=
  List.intercalate [.blank] (sections.map lines)

theorem toText_eq (s : Section) : s.toText = s.lines.flatMap Line.toText := by
  simp [toText, lines, Line.toText, List.flatMap_map]

theorem allLines_cons_cons (s t : Section) (sections : List Section) :
    allLines (s :: t :: sections) = s.lines ++ [.blank] ++ allLines (t :: sections) :=
  List.intercalate_cons_cons

/-- The text of sections is that of their lines. -/
theorem join_eq (sections : List Section) :
    join sections = (allLines sections).flatMap Line.toText := by
  induction sections with
  | nil => rfl
  | cons s sections ih =>
    cases sections with
    | nil => simp [join, allLines, toText_eq]
    | cons t sections =>
      have hjoin : join (s :: t :: sections) = s.toText ++ ['\n'] ++ join (t :: sections) :=
        List.intercalate_cons_cons
      rw [hjoin, ih, toText_eq, allLines_cons_cons]
      simp [Line.toText]

theorem filter_lines (s : Section) : s.lines.filter (· ≠ .blank) = s.lines := by
  rw [List.filter_eq_self]
  intro line hline
  rw [decide_eq_true_iff]
  rintro rfl
  simp [lines] at hline

theorem filter_allLines (sections : List Section) :
    (allLines sections).filter (· ≠ .blank) = sections.flatMap lines := by
  induction sections with
  | nil => rfl
  | cons s sections ih =>
    cases sections with
    | nil =>
      have hone : allLines [s] = s.lines := List.intercalate_singleton
      rw [hone, filter_lines]
      simp
    | cons t sections =>
      have hblank : [Line.blank].filter (· ≠ .blank) = [] := rfl
      rw [allLines_cons_cons, List.filter_append, List.filter_append, ih, filter_lines, hblank,
        List.append_nil]
      rfl

/-! ## Tables of sections -/

/-- The table of a section. -/
def table (s : Section) : Table Value :=
  ⟨.header, s.entries.map fun (key, value) => (key, .scalar value)⟩

/-- The table of a document of sections. -/
def document (sections : List Section) : Table Value :=
  ⟨.header, sections.map fun s => (s.name, .table s.table)⟩

/-- Whether a section can be written and read. -/
structure IsWritable (s : Section) : Prop where
  name : IsBare s.name
  entries : ∀ e ∈ s.entries, IsBare e.1 ∧ e.2.IsWritable
  nodup : (s.entries.map Prod.fst).Nodup

end Section

/-! ## Reading sections -/

theorem lookup_eq_none {V : Type} {entries : List (Key × V)} {key : Key}
    (h : key ∉ entries.map Prod.fst) : entries.lookup key = none := by
  rw [List.lookup_eq_none_iff]
  intro e he
  rw [bne_iff_ne]
  rintro rfl
  exact h (List.mem_map_of_mem he)

namespace Document

variable {entries : List (Key × Value)} {position : List Key} {name : Key}

theorem write?_header (h : name ∉ entries.map Prod.fst) :
    (Document.mk ⟨.header, entries⟩ position).write? (.header name) =
      some ⟨⟨.header, entries ++ [(name, .table (.empty .header))]⟩, [name]⟩ := by
  have hnone := lookup_eq_none h
  simp [write?, Table.openTable?, Table.change?, Table.find?, Table.add?, hnone]

theorem replace_last (h : name ∉ entries.map Prod.fst) (old new : Value) :
    Table.replace name new (entries ++ [(name, old)]) = entries ++ [(name, new)] := by
  induction entries with
  | nil => simp [Table.replace]
  | cons e entries ih =>
    rw [List.map_cons, List.mem_cons, not_or] at h
    simp [Table.replace, h.1, ih h.2]

theorem write?_entry (h : name ∉ entries.map Prod.fst) {fields : List (Key × Value)} {key : Key}
    (hkey : key ∉ fields.map Prod.fst) (value : Scalar) :
    (Document.mk ⟨.header, entries ++ [(name, .table ⟨.header, fields⟩)]⟩ [name]).write?
        (.entry key value) =
      some ⟨⟨.header, entries ++ [(name, .table ⟨.header, fields ++ [(key, .scalar value)]⟩)]⟩,
        [name]⟩ := by
  have hfind : (entries ++ [(name, Value.table ⟨.header, fields⟩)]).lookup name =
      some (.table ⟨.header, fields⟩) := by
    rw [List.lookup_append, lookup_eq_none h]
    simp
  have hnone := lookup_eq_none hkey
  simp [write?, Document.assign?, Table.assign?, Table.change?, Table.find?, Table.add?, hfind,
    hnone, Table.passable, Table.set, replace_last h]

/-- Entries are added to the table that is open. -/
theorem foldlM_entries (h : name ∉ entries.map Prod.fst) (added : List (Key × Scalar))
    {fields : List (Key × Value)} (hnodup : (fields.map Prod.fst ++ added.map Prod.fst).Nodup) :
    (added.map fun (key, value) => Line.entry key value).foldlM write?
        (Document.mk ⟨.header, entries ++ [(name, .table ⟨.header, fields⟩)]⟩ [name]) =
      some ⟨⟨.header, entries ++ [(name, .table ⟨.header,
        fields ++ added.map fun (key, value) => (key, .scalar value)⟩)]⟩, [name]⟩ := by
  induction added generalizing fields with
  | nil => simp
  | cons e added ih =>
    obtain ⟨key, value⟩ := e
    have hkey : key ∉ fields.map Prod.fst := by
      intro hmem
      exact (List.nodup_append.mp hnodup).2.2 key hmem key (List.mem_cons_self ..) rfl
    have hrest : ((fields ++ [(key, Value.scalar value)]).map Prod.fst ++
        added.map Prod.fst).Nodup := by
      simpa using hnodup
    rw [List.map_cons, List.foldlM_cons, write?_entry h hkey]
    show List.foldlM write? _ _ = _
    rw [ih hrest]
    simp

/-- The lines of a section add its table to the document. -/
theorem foldlM_section {s : Section} (hs : s.IsWritable) (h : s.name ∉ entries.map Prod.fst) :
    s.lines.foldlM write? (Document.mk ⟨.header, entries⟩ position) =
      some ⟨⟨.header, entries ++ [(s.name, .table s.table)]⟩, [s.name]⟩ := by
  have hnodup : (([] : List (Key × Value)).map Prod.fst ++ s.entries.map Prod.fst).Nodup := hs.nodup
  unfold Section.lines
  rw [List.foldlM_cons, write?_header h]
  exact foldlM_entries h s.entries hnodup

theorem foldlM_sections {sections : List Section} (hs : ∀ s ∈ sections, s.IsWritable)
    (h : (entries.map Prod.fst ++ sections.map Section.name).Nodup) :
    ((sections.flatMap Section.lines).foldlM write?
        (Document.mk ⟨.header, entries⟩ position)).map Document.root =
      some ⟨.header, entries ++ sections.map fun s => (s.name, .table s.table)⟩ := by
  induction sections generalizing entries position with
  | nil => simp
  | cons s sections ih =>
    have hname : s.name ∉ entries.map Prod.fst := by
      intro hmem
      exact (List.nodup_append.mp h).2.2 s.name hmem s.name (List.mem_cons_self ..) rfl
    have hrest : ((entries ++ [(s.name, Value.table s.table)]).map Prod.fst ++
        sections.map Section.name).Nodup := by
      simpa using h
    rw [List.flatMap_cons, List.foldlM_append, foldlM_section (hs s (List.mem_cons_self ..)) hname]
    show Option.map _ (List.foldlM write? _ _) = _
    rw [ih (fun t ht => hs t (List.mem_cons_of_mem _ ht)) hrest]
    simp

/-- Empty lines make no difference. -/
theorem foldlM_filter (lines : List Line) (document : Document) :
    (lines.filter (· ≠ .blank)).foldlM write? document = lines.foldlM write? document := by
  induction lines generalizing document with
  | nil => rfl
  | cons line lines ih =>
    by_cases hblank : line = .blank
    · subst hblank
      rw [List.filter_cons_of_neg (by simp), List.foldlM_cons]
      exact ih document
    · rw [List.filter_cons_of_pos (by simpa using hblank), List.foldlM_cons, List.foldlM_cons]
      congr 1
      funext next
      exact ih next

end Document

/-- A text with the lines of sections, and empty lines between any of them, is read as the table of
the sections. -/
theorem read?_sections {lines : List Line} {sections : List Section}
    (h : lines.filter (· ≠ .blank) = sections.flatMap Section.lines)
    (hs : ∀ s ∈ sections, s.IsWritable) (hnames : (sections.map Section.name).Nodup) :
    read? (lines.flatMap Line.toText) = some (Section.document sections) := by
  have hwritable : ∀ line ∈ lines, line.IsWritable := by
    intro line hline
    by_cases hblank : line = .blank
    · subst hblank
      trivial
    · have hmem : line ∈ sections.flatMap Section.lines := by
        rw [← h, List.mem_filter]
        exact ⟨hline, by simpa using hblank⟩
      obtain ⟨s, hsection, hmem⟩ := List.mem_flatMap.mp hmem
      rcases List.mem_cons.mp hmem with rfl | hentry
      · exact (hs s hsection).name
      · obtain ⟨e, he, rfl⟩ := List.mem_map.mp hentry
        exact (hs s hsection).entries e he
  rw [read?_lines hwritable, ← Document.foldlM_filter, h]
  exact Document.foldlM_sections hs hnames

/-! ## Deletions -/

/-- Whether lines are left of those of sections when entries are deleted, or sections as a whole: no
entry is left without the header of its section. -/
structure Remains (rest : List Line) (sections : List Section) : Prop where
  sublist : rest.Sublist (Section.allLines sections)
  header : ∀ s ∈ sections, ∀ e ∈ s.entries, .entry e.1 e.2 ∈ rest → .header s.name ∈ rest

/-- Whether a section is left of another one. -/
def Section.IsPartOf (part s : Section) : Prop :=
  part.name = s.name ∧ part.entries.Sublist s.entries

theorem Section.header_mem_lines {name : Key} {s : Section} (h : .header name ∈ s.lines) :
    name = s.name := by
  simpa [lines] using h

/-- The lines left of one section are none, or those of a part of it. -/
theorem Section.exists_part {rest : List Line} {s : Section} (h : rest.Sublist s.lines)
    (hheader : ∀ e ∈ s.entries, .entry e.1 e.2 ∈ rest → .header s.name ∈ rest) :
    rest = [] ∨ ∃ part : Section, rest = part.lines ∧ part.IsPartOf s := by
  rcases List.sublist_cons_iff.mp h with hentries | ⟨behind, rfl, hentries⟩
  · left
    obtain ⟨entries, hsub, rfl⟩ := List.sublist_map_iff.mp hentries
    rw [List.map_eq_nil_iff, List.eq_nil_iff_forall_not_mem]
    intro e he
    have hmem := hheader e (hsub.mem he) (List.mem_map_of_mem he)
    simp at hmem
  · obtain ⟨entries, hsub, rfl⟩ := List.sublist_map_iff.mp hentries
    exact .inr ⟨⟨s.name, entries⟩, rfl, rfl, hsub⟩

theorem exists_parts_of_sublist {sections : List Section}
    (hnames : (sections.map Section.name).Nodup) {rest : List Line}
    (h : rest.Sublist (sections.flatMap Section.lines))
    (hheader : ∀ s ∈ sections, ∀ e ∈ s.entries, .entry e.1 e.2 ∈ rest → .header s.name ∈ rest) :
    ∃ parts, rest = parts.flatMap Section.lines ∧
      List.SublistForall₂ Section.IsPartOf parts sections := by
  induction sections generalizing rest with
  | nil =>
    rw [List.flatMap_nil, List.sublist_nil] at h
    exact ⟨[], h, .nil⟩
  | cons s sections ih =>
    obtain ⟨hname, hnames⟩ := List.nodup_cons.mp hnames
    obtain ⟨first, behind, rfl, hfirst, hbehind⟩ := List.sublist_append_iff.mp h
    -- The header of a section stands among its own lines or not at all.
    have hother {name : Key} (hmem : .header name ∈ behind) : name ∈ sections.map Section.name := by
      obtain ⟨t, ht, hline⟩ := List.mem_flatMap.mp (hbehind.mem hmem)
      rw [Section.header_mem_lines hline]
      exact List.mem_map_of_mem ht
    have hown {name : Key} (hmem : .header name ∈ first) : name = s.name :=
      Section.header_mem_lines (hfirst.mem hmem)
    have hheaderFirst : ∀ e ∈ s.entries, .entry e.1 e.2 ∈ first → .header s.name ∈ first := by
      intro e he hmem
      have hmem := hheader s (List.mem_cons_self ..) e he (List.mem_append_left _ hmem)
      rcases List.mem_append.mp hmem with hmem | hmem
      · exact hmem
      · exact absurd (hother hmem) hname
    have hheaderBehind : ∀ t ∈ sections, ∀ e ∈ t.entries, .entry e.1 e.2 ∈ behind →
        .header t.name ∈ behind := by
      intro t ht e he hmem
      have hmem := hheader t (List.mem_cons_of_mem _ ht) e he (List.mem_append_right _ hmem)
      rcases List.mem_append.mp hmem with hmem | hmem
      · rw [← hown hmem] at hname
        exact absurd (List.mem_map_of_mem ht) hname
      · exact hmem
    obtain ⟨parts, rfl, hparts⟩ := ih hnames hbehind hheaderBehind
    rcases Section.exists_part hfirst hheaderFirst with rfl | ⟨part, rfl, hpart⟩
    · exact ⟨parts, rfl, .cons_right hparts⟩
    · exact ⟨part :: parts, rfl, .cons hpart hparts⟩

/-- What is left of sections consists of parts of them. -/
theorem Remains.exists_parts {rest : List Line} {sections : List Section}
    (hnames : (sections.map Section.name).Nodup) (h : Remains rest sections) :
    ∃ parts, rest.filter (· ≠ .blank) = parts.flatMap Section.lines ∧
      List.SublistForall₂ Section.IsPartOf parts sections := by
  have hsub : (rest.filter (· ≠ .blank)).Sublist (sections.flatMap Section.lines) := by
    rw [← Section.filter_allLines]
    exact h.sublist.filter _
  refine exists_parts_of_sublist hnames hsub ?_
  intro s hs e he hmem
  rw [List.mem_filter] at hmem ⊢
  exact ⟨h.header s hs e he hmem.1, rfl⟩

theorem Section.IsWritable.of_part {part s : Section} (hs : s.IsWritable) (h : part.IsPartOf s) :
    part.IsWritable := by
  obtain ⟨hname, hentries⟩ := h
  constructor
  · rw [hname]
    exact hs.name
  · exact fun e he => hs.entries e (hentries.mem he)
  · exact (hentries.map Prod.fst).nodup hs.nodup

theorem lookup_of_sublist {V : Type} {part all : List (Key × V)} (h : part.Sublist all)
    (hnodup : (all.map Prod.fst).Nodup) (key : Key) :
    part.lookup key = if key ∈ part.map Prod.fst then all.lookup key else none := by
  induction h with
  | slnil => rfl
  | @cons part all e h ih =>
    obtain ⟨k, v⟩ := e
    obtain ⟨hnew, hnodup⟩ := List.nodup_cons.mp hnodup
    rw [ih hnodup]
    by_cases hmem : key ∈ part.map Prod.fst
    · have hne : (key == k) = false := by
        rw [beq_eq_false_iff_ne]
        rintro rfl
        exact hnew ((h.map Prod.fst).mem hmem)
      rw [if_pos hmem, if_pos hmem, List.lookup_cons, hne]
    · rw [if_neg hmem, if_neg hmem]
  | @cons_cons part all e h ih =>
    obtain ⟨k, v⟩ := e
    obtain ⟨-, hnodup⟩ := List.nodup_cons.mp hnodup
    by_cases hkey : key = k
    · subst hkey
      simp
    · have hne : (key == k) = false := beq_eq_false_iff_ne.mpr hkey
      have hmem : key ∈ ((k, v) :: part).map Prod.fst ↔ key ∈ part.map Prod.fst := by
        rw [List.map_cons, List.mem_cons]
        exact or_iff_right hkey
      simp only [List.lookup_cons, hne, ih hnodup, hmem]

theorem Section.map_fst_table (s : Section) :
    s.table.entries.map Prod.fst = s.entries.map Prod.fst := by
  simp [table]

/-- A part of a section has the values of the section for the keys that it has. -/
theorem Section.IsPartOf.find?_table {part s : Section} (h : part.IsPartOf s)
    (hnodup : (s.entries.map Prod.fst).Nodup) (key : Key) :
    part.table.find? key =
      if key ∈ part.entries.map Prod.fst then s.table.find? key else none := by
  rw [← s.map_fst_table] at hnodup
  rw [← part.map_fst_table]
  exact lookup_of_sublist (h.2.map _) hnodup key

/-- The first of the sections is left in part or not at all. -/
theorem exists_first_part {parts sections : List Section} {s : Section}
    (h : List.SublistForall₂ Section.IsPartOf parts (s :: sections)) :
    ∃ (first : Option Section) (others : List Section), parts = first.toList ++ others ∧
      (∀ part ∈ first, part.IsPartOf s) ∧
      List.SublistForall₂ Section.IsPartOf others sections := by
  cases h with
  | nil => exact ⟨none, [], rfl, by simp, .nil⟩
  | cons hpart h => exact ⟨some _, _, rfl, by simpa using hpart, h⟩
  | cons_right h => exact ⟨none, _, rfl, by simp, h⟩

theorem sublist_names {parts sections : List Section}
    (h : List.SublistForall₂ Section.IsPartOf parts sections) :
    (parts.map Section.name).Sublist (sections.map Section.name) := by
  induction h with
  | nil => exact List.nil_sublist _
  | cons hpart _ ih =>
    rw [List.map_cons, List.map_cons, hpart.1]
    exact ih.cons_cons _
  | cons_right _ ih => exact ih.cons _

theorem exists_isPartOf {parts sections : List Section}
    (h : List.SublistForall₂ Section.IsPartOf parts sections) :
    ∀ part ∈ parts, ∃ s ∈ sections, part.IsPartOf s := by
  induction h with
  | nil => simp
  | cons hpart _ ih =>
    intro part hmem
    rcases List.mem_cons.mp hmem with rfl | hmem
    · exact ⟨_, List.mem_cons_self .., hpart⟩
    · obtain ⟨s, hs, hpart⟩ := ih part hmem
      exact ⟨s, List.mem_cons_of_mem _ hs, hpart⟩
  | cons_right _ ih =>
    intro part hmem
    obtain ⟨s, hs, hpart⟩ := ih part hmem
    exact ⟨s, List.mem_cons_of_mem _ hs, hpart⟩

/-- The key of an entry. -/
def Line.key? : Line → Option Key
  | .entry key _ => some key
  | _ => none

/-- The keys of some lines. -/
def keysOf (lines : List Line) : List Key := lines.filterMap Line.key?

theorem keysOf_filter (lines : List Line) : keysOf (lines.filter (· ≠ .blank)) = keysOf lines := by
  unfold keysOf
  rw [List.filterMap_filter]
  congr 1
  funext line
  cases line <;> rfl

theorem keysOf_sections (sections : List Section) :
    keysOf (sections.flatMap Section.lines) =
      sections.flatMap fun s => s.entries.map Prod.fst := by
  have hlines (s : Section) : keysOf s.lines = s.entries.map Prod.fst := by
    unfold keysOf Section.lines
    rw [List.filterMap_cons_none rfl, List.filterMap_map]
    exact congrFun List.filterMap_eq_map s.entries
  unfold keysOf
  rw [List.filterMap_flatMap]
  congr 1
  funext s
  exact hlines s

/-- What is left of sections is read as the table of some parts of them. -/
theorem Remains.exists_read? {rest : List Line} {sections : List Section}
    (h : Remains rest sections) (hs : ∀ s ∈ sections, s.IsWritable)
    (hnames : (sections.map Section.name).Nodup) :
    ∃ parts, List.SublistForall₂ Section.IsPartOf parts sections ∧
      keysOf rest = parts.flatMap (fun s => s.entries.map Prod.fst) ∧
      Toml.read? (rest.flatMap Line.toText) = some (Section.document parts) := by
  obtain ⟨parts, hlines, hparts⟩ := h.exists_parts hnames
  refine ⟨parts, hparts, ?_, read?_sections hlines ?_ ?_⟩
  · rw [← keysOf_filter, hlines, keysOf_sections]
  · intro part hmem
    obtain ⟨s, hsection, hpart⟩ := exists_isPartOf hparts part hmem
    exact (hs s hsection).of_part hpart
  · exact (sublist_names hparts).nodup hnames

/-- If nothing is deleted, everything is left. -/
theorem Remains.all (sections : List Section) : Remains (Section.allLines sections) sections := by
  constructor
  · exact List.Sublist.refl _
  · intro s hs e he hmem
    have hheader : Line.header s.name ∈ (Section.allLines sections).filter (· ≠ .blank) := by
      rw [Section.filter_allLines]
      exact List.mem_flatMap.mpr ⟨s, hs, List.mem_cons_self ..⟩
    exact (List.mem_filter.mp hheader).1

end Famicom.Toml
