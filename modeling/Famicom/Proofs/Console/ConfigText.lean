import Famicom.Console.ConfigFile
import Famicom.Decimal.Float
import Famicom.Proofs.Console.PacingStep
import Famicom.Proofs.Toml.Sections

/-!
# Configurations and their text

The text of a configuration is read as the configuration, if its threshold is a number that is read
from the decimal written for it. When lines are deleted from the text, the fields whose lines are
gone have their defaults and all others keep their values.

* `DecimalNotation.readsBack_float`: when a floating-point number is read from its decimal.
* `Timing.ofValue?_part`, `JamBehavior.ofValue?_part`: how what is left of a section is read.
* `Config.readsOwnText`: how the text of a configuration is read, and what is left of it.
* `Config.ofText_toText_float`: the same with floating-point numbers for times.
-/

namespace Famicom

/-! ## Floating point -/

theorem Binary.isNormal_shortest (b : Binary) (negative : Bool) :
    (b.shortest negative).IsNormal :=
  Decimal.isNormal_normal ..

/-- The decimal that is written for a finite floating-point number is normal. -/
theorem Decimal.isNormal_ofFloat (x : Float) : (ofFloat x).IsNormal := by
  unfold ofFloat
  simp only
  split
  · split
    · exact isNormal_normal ..
    · exact Binary.isNormal_shortest ..
  · exact Binary.isNormal_shortest ..

/-- Whether a number can be written, and is read from the decimal that is written for it. -/
structure DecimalNotation.ReadsBack {T : Type} [DecimalNotation T] (x : T) : Prop where
  isNumber : (toDecimal x).IsNumber
  ofDecimal? : ofDecimal? (toDecimal x) = some x

/-- The decimal of a floating-point number can be written, so the number need only be read from
it. -/
theorem DecimalNotation.readsBack_float {x : Float} (hnan : x.isNaN = false)
    (hread : ofDecimal? (toDecimal x) = some x) : ReadsBack x := by
  have hdecimal : toDecimal x = if x.isInf then .infinite (x < 0) else .finite (.ofFloat x) := by
    show (if x.isNaN = true then _ else _) = _
    rw [hnan]
    rfl
  refine ⟨?_, hread⟩
  rw [hdecimal] at hread ⊢
  split
  · trivial
  · next hfinite =>
    rw [if_neg hfinite] at hread
    have hrange : (Decimal.ofFloat x).toFloat? = some x := hread
    unfold Decimal.toFloat? at hrange
    obtain ⟨bits, hbits, -⟩ := Option.map_eq_some_iff.mp hrange
    exact ⟨Decimal.isNormal_ofFloat x, by rw [hbits]; rfl⟩

/-! ## Names -/

theorem VideoStandard.ofName?_name (standard : VideoStandard) :
    ofName? standard.name = some standard := by
  cases standard <;> rfl

theorem JamBehavior.ofName?_name (jam : JamBehavior) : ofName? jam.name = some jam := by
  cases jam <;> rfl

/-! ## What is left of a section -/

/-- A field that is left has its value, and one that is not has its default. -/
theorem Toml.Section.IsPartOf.readField? {part s : Section} (h : part.IsPartOf s)
    (hnodup : (s.entries.map Prod.fst).Nodup) {α : Type} {read? : Value → Option α} {default x : α}
    {key : Key} {value : Value} (hfind : s.table.find? key = some value)
    (hread : read? value = some x) :
    Famicom.readField? read? default (part.table.find? key) =
      some (if key ∈ part.entries.map Prod.fst then x else default) := by
  rw [h.find?_table hnodup, hfind]
  split
  · exact hread
  · rfl

/-- The fields of what is left of a section. -/
theorem Toml.Section.IsPartOf.fields? {part s : Section} (h : part.IsPartOf s) :
    (Value.table part.table).fields? (s.entries.map Prod.fst) =
      some ((s.entries.map Prod.fst).map part.table.find?) := by
  have hall : (part.table.entries.all fun e =>
      (s.entries.map Prod.fst).contains e.1 || e.2.isReadable) = true := by
    rw [List.all_eq_true]
    intro e he
    have hkey : e.1 ∈ s.entries.map Prod.fst := by
      apply (h.2.map Prod.fst).mem
      rw [← part.map_fst_table]
      exact List.mem_map_of_mem he
    have hcontains : (s.entries.map Prod.fst).contains e.1 = true := by simpa using hkey
    simp only [hcontains, Bool.true_or]
  exact if_pos hall

section

variable {T : Type} [Time T] [DecimalNotation T]

/-- The timing with the default for every field whose key is not among some keys. -/
def Timing.keeping (timing : Timing T) (keys : List Toml.Key) : Timing T where
  standard := if "mode".toList ∈ keys then timing.standard else (Timing.default : Timing T).standard
  pauseThreshold :=
    if "pause_threshold_ms".toList ∈ keys then timing.pauseThreshold
    else (Timing.default : Timing T).pauseThreshold
  maxCatchUp :=
    if "max_catch_up_frames".toList ∈ keys then timing.maxCatchUp
    else (Timing.default : Timing T).maxCatchUp

/-- The configuration with the default for every field whose key is not among some keys. -/
def Config.keeping (config : Config T) (keys : List Toml.Key) : Config T where
  timing := config.timing.keeping keys
  jam := if "jam".toList ∈ keys then config.jam else (Config.default : Config T).jam

theorem Toml.Value.count?_ofNat (n : UInt32) :
    count? (.scalar (.integer n.toNat)) = some n := by
  show (if n.toNat < UInt32.size then some (UInt32.ofNat n.toNat) else none) = some n
  rw [if_pos n.toNat_lt_size, UInt32.ofNat_toNat]

namespace Timing

omit [Time T] in
theorem nodup_toSection (timing : Timing T) : (timing.toSection.entries.map Prod.fst).Nodup := by
  show fieldNames.Nodup
  decide

/-- What is left of the section of a timing is read as what it keeps. -/
theorem ofValue?_part {timing : Timing T}
    (hread : DecimalNotation.ReadsBack timing.pauseThreshold) {part : Toml.Section}
    (h : part.IsPartOf timing.toSection) :
    ofValue? (.table part.table) = some (timing.keeping (part.entries.map Prod.fst)) := by
  have hnodup := timing.nodup_toSection
  have hfields : (Toml.Value.table part.table).fields? fieldNames =
      some (fieldNames.map part.table.find?) := h.fields?
  have hstandard : readField? (fun v => v.name?.bind VideoStandard.ofName?)
      (Timing.default : Timing T).standard (part.table.find? "mode".toList) =
        some (timing.keeping (part.entries.map Prod.fst)).standard :=
    h.readField? hnodup rfl timing.standard.ofName?_name
  have hthreshold : readField? (fun v => v.real?.bind DecimalNotation.ofDecimal?)
      (Timing.default : Timing T).pauseThreshold (part.table.find? "pause_threshold_ms".toList) =
        some (timing.keeping (part.entries.map Prod.fst)).pauseThreshold :=
    h.readField? hnodup rfl hread.ofDecimal?
  have hframes : readField? Toml.Value.count? (Timing.default : Timing T).maxCatchUp
      (part.table.find? "max_catch_up_frames".toList) =
        some (timing.keeping (part.entries.map Prod.fst)).maxCatchUp :=
    h.readField? hnodup rfl (Toml.Value.count?_ofNat timing.maxCatchUp)
  unfold ofValue?
  rw [hfields]
  simp only [Option.bind_eq_bind, Option.bind_some, fieldNames, List.map_cons, List.map_nil,
    hstandard, hthreshold, hframes]
  rfl

end Timing

namespace JamBehavior

theorem nodup_toSection (jam : JamBehavior) : (jam.toSection.entries.map Prod.fst).Nodup :=
  List.nodup_singleton _

/-- What is left of the section of the processor is read as what it keeps. -/
theorem ofValue?_part {jam : JamBehavior} {part : Toml.Section} (h : part.IsPartOf jam.toSection) :
    ofValue? (.table part.table) =
      some (if "jam".toList ∈ part.entries.map Prod.fst then jam else .reset) := by
  have hfields : (Toml.Value.table part.table).fields? ["jam".toList] =
      some (["jam".toList].map part.table.find?) := h.fields?
  have hjam : readField? (fun v => v.name?.bind ofName?) .reset
      (part.table.find? "jam".toList) =
        some (if "jam".toList ∈ part.entries.map Prod.fst then jam else .reset) :=
    h.readField? jam.nodup_toSection rfl jam.ofName?_name
  unfold ofValue?
  simp only [hfields, Option.bind_eq_bind, Option.bind_some, List.map_cons, List.map_nil, hjam]

end JamBehavior

/-! ## What is left of a document -/

/-- The keys of a section that may be gone. -/
def Toml.keysIn (part? : Option Toml.Section) : List Toml.Key :=
  part?.toList.flatMap fun part => part.entries.map Prod.fst

theorem Toml.mem_of_mem_keysIn {part? : Option Toml.Section} {s : Toml.Section}
    (h : ∀ part ∈ part?, part.IsPartOf s) {key : Toml.Key} (hkey : key ∈ keysIn part?) :
    key ∈ s.entries.map Prod.fst := by
  cases part? with
  | none => simp [keysIn] at hkey
  | some part =>
    have hmem : key ∈ part.entries.map Prod.fst := by simpa [keysIn] using hkey
    exact ((h part rfl).2.map Prod.fst).mem hmem

omit [DecimalNotation T] in
theorem Timing.keeping_nil (timing : Timing T) : timing.keeping [] = .default := by
  simp [keeping]

omit [DecimalNotation T] in
theorem Timing.keeping_append (timing : Timing T) {keys others : List Toml.Key}
    (h : ∀ key ∈ fieldNames, key ∉ others) :
    timing.keeping (keys ++ others) = timing.keeping keys := by
  have hmem : ∀ key ∈ fieldNames, (key ∈ keys ++ others ↔ key ∈ keys) := by
    intro key hkey
    rw [List.mem_append]
    exact or_iff_left (h key hkey)
  have hmode := hmem "mode".toList (by decide)
  have hthreshold := hmem "pause_threshold_ms".toList (by decide)
  have hframes := hmem "max_catch_up_frames".toList (by decide)
  simp only [keeping, hmode, hthreshold, hframes]

/-- The tables of two sections, of which each may be gone. -/
theorem Toml.fields?_document {first? second? : Option Toml.Section} {s t : Toml.Section}
    (hfirst : ∀ part ∈ first?, part.IsPartOf s) (hsecond : ∀ part ∈ second?, part.IsPartOf t)
    (hne : s.name ≠ t.name) :
    (Section.document (first?.toList ++ second?.toList)).fields? [s.name, t.name] =
      some [first?.map fun part => .table part.table,
        second?.map fun part => .table part.table] := by
  have hfirst : ∀ part ∈ first?, part.name = s.name := fun part h => (hfirst part h).1
  have hsecond : ∀ part ∈ second?, part.name = t.name := fun part h => (hsecond part h).1
  have hst : (s.name == t.name) = false := beq_eq_false_iff_ne.mpr hne
  have hts : (t.name == s.name) = false := beq_eq_false_iff_ne.mpr hne.symm
  cases first? with
  | none =>
    cases second? with
    | none => rfl
    | some q =>
      have hq := hsecond q rfl
      simp [Section.document, Table.fields?, Table.find?, List.lookup_cons, hq, hst]
  | some p =>
    have hp := hfirst p rfl
    cases second? with
    | none => simp [Section.document, Table.fields?, Table.find?, List.lookup_cons, hp, hts]
    | some q =>
      have hq := hsecond q rfl
      simp [Section.document, Table.fields?, Table.find?, List.lookup_cons, hp, hq, hts]

namespace Config

/-- What is left of the section of a timing, if any, is read as what it keeps. -/
theorem readField?_timing {timing : Timing T}
    (hread : DecimalNotation.ReadsBack timing.pauseThreshold) {part? : Option Toml.Section}
    (h : ∀ part ∈ part?, part.IsPartOf timing.toSection) :
    readField? Timing.ofValue? .default (part?.map fun part => .table part.table) =
      some (timing.keeping (Toml.keysIn part?)) := by
  cases part? with
  | none => exact congrArg some timing.keeping_nil.symm
  | some part =>
    rw [Option.map_some, Toml.keysIn, Option.toList_some, List.flatMap_singleton]
    exact Timing.ofValue?_part hread (h part rfl)

/-- What is left of the section of the processor, if any, is read as what it keeps. -/
theorem readField?_jam {jam : JamBehavior} {part? : Option Toml.Section}
    (h : ∀ part ∈ part?, part.IsPartOf jam.toSection) :
    readField? JamBehavior.ofValue? .reset (part?.map fun part => .table part.table) =
      some (if "jam".toList ∈ Toml.keysIn part? then jam else .reset) := by
  cases part? with
  | none => rfl
  | some part =>
    rw [Option.map_some, Toml.keysIn, Option.toList_some, List.flatMap_singleton]
    exact JamBehavior.ofValue?_part (h part rfl)

/-- What is left of a document is read as what it keeps. -/
theorem ofTable?_document {config : Config T}
    (hread : DecimalNotation.ReadsBack config.timing.pauseThreshold)
    {timing? cpu? : Option Toml.Section}
    (htiming : ∀ part ∈ timing?, part.IsPartOf config.timing.toSection)
    (hcpu : ∀ part ∈ cpu?, part.IsPartOf config.jam.toSection) :
    ofTable? (Toml.Section.document (timing?.toList ++ cpu?.toList)) =
      some (config.keeping (Toml.keysIn timing? ++ Toml.keysIn cpu?)) := by
  have hfields : (Toml.Section.document (timing?.toList ++ cpu?.toList)).fields?
      ["timing".toList, "cpu".toList] =
        some [timing?.map fun part => .table part.table, cpu?.map fun part => .table part.table] :=
    Toml.fields?_document htiming hcpu (show "timing".toList ≠ "cpu".toList by decide)
  have htimingKeys : config.timing.keeping (Toml.keysIn timing? ++ Toml.keysIn cpu?) =
      config.timing.keeping (Toml.keysIn timing?) := by
    apply Timing.keeping_append
    intro key hkey hmem
    have hjam : key ∈ ["jam".toList] := Toml.mem_of_mem_keysIn hcpu hmem
    rw [List.mem_singleton.mp hjam] at hkey
    exact absurd hkey (by decide)
  have hjamKeys : "jam".toList ∈ Toml.keysIn timing? ++ Toml.keysIn cpu? ↔
      "jam".toList ∈ Toml.keysIn cpu? := by
    rw [List.mem_append]
    apply or_iff_right
    intro hmem
    have hfield : "jam".toList ∈ Timing.fieldNames := Toml.mem_of_mem_keysIn htiming hmem
    exact absurd hfield (by decide)
  unfold ofTable?
  rw [hfields]
  simp only [Option.bind_eq_bind, Option.bind_some, readField?_timing hread htiming,
    readField?_jam hcpu, keeping, htimingKeys, hjamKeys]
  rfl

omit [Time T] in
theorem isWritable_toSections {config : Config T}
    (hread : DecimalNotation.ReadsBack config.timing.pauseThreshold) :
    ∀ s ∈ config.toSections, s.IsWritable := by
  have hstandard : Toml.IsLiteral config.timing.standard.name := by
    cases config.timing.standard <;> decide
  have hjam : Toml.IsLiteral config.jam.name := by
    cases config.jam <;> decide
  have hframes : Toml.fits 128 config.timing.maxCatchUp.toNat = true := by
    have hlt := config.timing.maxCatchUp.toNat_lt_size
    show decide (_ < 1 <<< 128) = true
    rw [decide_eq_true_iff]
    exact Nat.lt_trans hlt (by decide)
  have hbare : ∀ name ∈ ["timing".toList, "cpu".toList, "jam".toList] ++ Timing.fieldNames,
      Toml.IsBare name := by decide
  have htiming : config.timing.toSection.IsWritable := by
    refine ⟨hbare "timing".toList (by decide), ?_, config.timing.nodup_toSection⟩
    intro e he
    rcases List.mem_cons.mp he with rfl | he
    · exact ⟨hbare "mode".toList (by decide), hstandard⟩
    · rcases List.mem_cons.mp he with rfl | he
      · exact ⟨hbare "pause_threshold_ms".toList (by decide), hread.isNumber⟩
      · rw [List.mem_singleton.mp he]
        exact ⟨hbare "max_catch_up_frames".toList (by decide), hframes⟩
  have hcpu : config.jam.toSection.IsWritable := by
    refine ⟨hbare "cpu".toList (by decide), ?_, config.jam.nodup_toSection⟩
    intro e he
    rw [List.mem_singleton.mp he]
    exact ⟨hbare "jam".toList (by decide), hjam⟩
  intro s hs
  rcases List.mem_cons.mp hs with rfl | hs
  · exact htiming
  · rw [List.mem_singleton.mp hs]
    exact hcpu

theorem ofText_of_ofText? {text : String} {config : Config T} (h : ofText? text = some config) :
    ofText text = .ok config := by
  unfold ofText
  rw [h]

omit [Time T] in
/-- The text of a configuration, line by line. -/
theorem toText_eq (config : Config T) :
    config.toText =
      .ofList ((Toml.Section.allLines config.toSections).flatMap Toml.Line.toText) := by
  unfold toText
  rw [Toml.Section.join_eq]

/-- What is left of the text of a configuration is read as what it keeps. -/
theorem ofText_of_remains {config : Config T}
    (hread : DecimalNotation.ReadsBack config.timing.pauseThreshold) {rest : List Toml.Line}
    (h : Toml.Remains rest config.toSections) :
    ofText (.ofList (rest.flatMap Toml.Line.toText)) =
      .ok (config.keeping (Toml.keysOf rest)) := by
  have hnames : (config.toSections.map Toml.Section.name).Nodup :=
    show ["timing".toList, "cpu".toList].Nodup by decide
  obtain ⟨parts, hparts, hkeys, hdocument⟩ :=
    h.exists_read? (isWritable_toSections hread) hnames
  obtain ⟨timing?, others, rfl, htiming, hothers⟩ := Toml.exists_first_part hparts
  obtain ⟨cpu?, none, rfl, hcpu, hnone⟩ := Toml.exists_first_part hothers
  cases hnone
  rw [List.append_nil] at hkeys hdocument
  apply ofText_of_ofText?
  unfold ofText?
  rw [String.toList_ofList, hdocument, hkeys, List.flatMap_append]
  exact ofTable?_document hread htiming hcpu

/-- The whole text is read as the configuration. -/
theorem ofText_toText {config : Config T}
    (hread : DecimalNotation.ReadsBack config.timing.pauseThreshold) :
    ofText config.toText = .ok config := by
  have hall : Toml.keysOf (Toml.Section.allLines config.toSections) =
      Timing.fieldNames ++ ["jam".toList] := rfl
  rw [toText_eq, ofText_of_remains hread (Toml.Remains.all config.toSections), hall]
  rfl

/-- A configuration is read from its own text, if its threshold is read from the decimal written for
it. Let lines be deleted from the text, but no header without what stands below it. Then the text
that is left is read as well: the fields whose lines are left have the values of the configuration,
and all others their defaults. -/
theorem readsOwnText (config : Config T)
    (hread : DecimalNotation.ReadsBack config.timing.pauseThreshold) :
    config.toText =
        .ofList ((Toml.Section.allLines config.toSections).flatMap Toml.Line.toText) ∧
      ofText config.toText = .ok config ∧
      ∀ rest, Toml.Remains rest config.toSections →
        ofText (.ofList (rest.flatMap Toml.Line.toText)) =
          .ok (config.keeping (Toml.keysOf rest)) :=
  ⟨config.toText_eq, ofText_toText hread, fun _ => ofText_of_remains hread⟩

end Config

end

/-- With floating-point numbers for times, the threshold must be a number that is read from its
decimal; whether it is finite does not matter. -/
theorem Config.ofText_toText_float {config : Config Float}
    (hnan : config.timing.pauseThreshold.isNaN = false)
    (hread : DecimalNotation.ofDecimal?
      (DecimalNotation.toDecimal config.timing.pauseThreshold) =
        some config.timing.pauseThreshold) :
    ofText config.toText = .ok config ∧
      ∀ rest, Toml.Remains rest config.toSections →
        ofText (.ofList (rest.flatMap Toml.Line.toText)) =
          .ok (config.keeping (Toml.keysOf rest)) := by
  have hthreshold := DecimalNotation.readsBack_float hnan hread
  exact ⟨ofText_toText hthreshold, fun _ => ofText_of_remains hthreshold⟩

/-! ## Exact numbers -/

namespace ExtendedRat

/-- The decimal of a rational number, cut off behind as many places as its denominator may need. -/
def decimal (q : ℚ) : Decimal :=
  let places := q.den.log2
  .normal (q.num < 0) (q.num.natAbs * Nat.pow 10 places / q.den) (-places)

/-- The rational number of a decimal. -/
def ofDecimal (d : Decimal) : ℚ :=
  let size : ℤ := d.digits * Nat.pow 10 d.exponent.toNat
  mkRat (if d.negative then -size else size) (Nat.pow 10 (-d.exponent).toNat)

instance : DecimalNotation ExtendedRat where
  toDecimal
    | finite q => .finite (decimal q)
    | infinite negative => .infinite negative
    | undefined => .undefined
  ofDecimal?
    | .finite d => some (finite (ofDecimal d))
    | .infinite negative => some (infinite negative)
    | .undefined => some undefined

end ExtendedRat

namespace Config

/-- A configuration in which nothing is the default. -/
def unusual : Config ExtendedRat where
  timing := { standard := .pal, pauseThreshold := .finite (-25 / 2), maxCatchUp := 4294967295 }
  jam := .halt

/-- It is read from its text. Without its first field and its second section, the video standard and
what jams lead to are read as their defaults. -/
theorem readsOwnText_unusual :
    let rest : List Toml.Line :=
      [.header "timing".toList,
        .entry "pause_threshold_ms".toList (.real (.finite ⟨true, 125, -1⟩)),
        .entry "max_catch_up_frames".toList (.integer 4294967295)]
    DecimalNotation.ReadsBack unusual.timing.pauseThreshold ∧ Toml.Remains rest unusual.toSections ∧
      ofText unusual.toText = .ok unusual ∧
      ofText "[timing]\npause_threshold_ms = -12.5\nmax_catch_up_frames = 4294967295\n" =
        .ok { unusual with timing.standard := .ntsc, jam := .reset } := by
  intro rest
  have hread : DecimalNotation.ReadsBack unusual.timing.pauseThreshold :=
    ⟨by decide +kernel, by decide +kernel⟩
  have hremains : Toml.Remains rest unusual.toSections := ⟨by decide +kernel, by decide +kernel⟩
  obtain ⟨-, hown, hrest⟩ := unusual.readsOwnText hread
  have hkept : unusual.keeping (Toml.keysOf rest) =
      { unusual with timing.standard := .ntsc, jam := .reset } := by decide +kernel
  have htext : String.ofList (rest.flatMap Toml.Line.toText) =
      "[timing]\npause_threshold_ms = -12.5\nmax_catch_up_frames = 4294967295\n" := by
    decide +kernel
  refine ⟨hread, hremains, hown, ?_⟩
  rw [← htext, ← hkept]
  exact hrest rest hremains

end Config

end Famicom
