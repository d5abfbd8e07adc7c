import Lineage.Proofs.Json.Records
import Lineage.Proofs.Json.Writing
import Lineage.Settings.Document

/-!
# Documents are read back

What is written as a document is read back as it was. Settings may be given in part: an object that
lists some of their members, in any order and among members that nobody knows, replaces just these
members of the defaults, and so does the source filter inside it.
-/

namespace Lineage

open Json

/-! ### Source filters -/

namespace SourceFilter

def names : List String :=
  ["excluded_infixes", "excluded_names", "skip_synthetic", "skip_internal"]

/-- The members of an object give these parts of a source filter; other members have any value. -/
structure Given.ListedIn (given : Given) (entries : List (String × List Char)) : Prop where
  excludedInfixes :
    Gives entries "excluded_infixes" (SpellsList SpellsText) given.excludedInfixes
  excludedNames : Gives entries "excluded_names" (SpellsList SpellsText) given.excludedNames
  skipSynthetic : Gives entries "skip_synthetic" SpellsBool given.skipSynthetic
  skipInternal : Gives entries "skip_internal" SpellsBool given.skipInternal
  unknown : ∀ entry ∈ entries, entry.1 ∉ names → WellFormed entry.2

/-- The text of an object that gives some parts of the filter, the others being the default ones. -/
def SpelledBy (filter : SourceFilter) (text : List Char) : Prop :=
  ∃ given entries, ObjectText entries text ∧ Given.ListedIn given entries ∧ filter = given.over {}

def known : List (Reader.Known Given) := [
  { name := "excluded_infixes", get := (·.excludedInfixes), item := Reader.list Reader.text,
    put := fun v given => { given with excludedInfixes := some v }, spells := SpellsList SpellsText },
  { name := "excluded_names", get := (·.excludedNames), item := Reader.list Reader.text,
    put := fun v given => { given with excludedNames := some v }, spells := SpellsList SpellsText },
  { name := "skip_synthetic", get := (·.skipSynthetic), item := Reader.bool,
    put := fun v given => { given with skipSynthetic := some v }, spells := SpellsBool },
  { name := "skip_internal", get := (·.skipInternal), item := Reader.bool,
    put := fun v given => { given with skipInternal := some v }, spells := SpellsBool }]

theorem forall_known {p : Reader.Known Given → Prop} : (∀ k ∈ known, p k) ↔
    p known[0] ∧ p known[1] ∧ p known[2] ∧ p known[3] := by
  simp [known]

theorem layout : Reader.Layout member known where
  once := forall_known.mpr ⟨rfl, rfl, rfl, rfl⟩
  unknown := by
    intro name other
    unfold member
    split <;> simp_all [known]
  reads := forall_known.mpr ⟨Reader.reads_list Reader.reads_text, Reader.reads_list Reader.reads_text,
      Reader.reads_bool, Reader.reads_bool⟩
  distinct := by decide
  get_put := by
    simp [known]
  frame := by
    simp [known]
  ext := by
    rintro ⟨⟩ ⟨⟩ same
    simpa [known] using same

theorem reads_spelled {filter : SourceFilter} {text : List Char} (h : filter.SpelledBy text) :
    Reader.Reads reader text filter := by
  obtain ⟨given, entries, object, listed, rfl⟩ := h
  refine layout.reads_object given object ?_ ?_ ?_ rfl
  · simp [known]
  · exact forall_known.mpr ⟨listed.excludedInfixes, listed.excludedNames, listed.skipSynthetic,
      listed.skipInternal⟩
  · exact listed.unknown

end SourceFilter

/-! ### Settings -/

namespace Settings

def names : List String := ["sweep_interval", "dump_on_write", "log_filter", "source_filter"]

/-- The members of an object give these parts of the settings; other members have any value. -/
structure Given.ListedIn (given : Given) (entries : List (String × List Char)) : Prop where
  sweepInterval : Gives entries "sweep_interval" SpellsNatural given.sweepInterval
  outlineWrites : Gives entries "dump_on_write" SpellsBool given.outlineWrites
  logFilter : Gives entries "log_filter" SpellsText given.logFilter
  sourceFilter : Gives entries "source_filter" SourceFilter.SpelledBy given.sourceFilter
  unknown : ∀ entry ∈ entries, entry.1 ∉ names → WellFormed entry.2

def known : List (Reader.Known Given) := [
  { name := "sweep_interval", get := (·.sweepInterval), item := Reader.natural,
    put := fun v given => { given with sweepInterval := some v }, spells := SpellsNatural },
  { name := "dump_on_write", get := (·.outlineWrites), item := Reader.bool,
    put := fun v given => { given with outlineWrites := some v }, spells := SpellsBool },
  { name := "log_filter", get := (·.logFilter), item := Reader.text,
    put := fun v given => { given with logFilter := some v }, spells := SpellsText },
  { name := "source_filter", get := (·.sourceFilter), item := SourceFilter.reader,
    put := fun v given => { given with sourceFilter := some v }, spells := SourceFilter.SpelledBy }]

theorem forall_known {p : Reader.Known Given → Prop} : (∀ k ∈ known, p k) ↔
    p known[0] ∧ p known[1] ∧ p known[2] ∧ p known[3] := by
  simp [known]

theorem layout : Reader.Layout member known where
  once := forall_known.mpr ⟨rfl, rfl, rfl, rfl⟩
  unknown := by
    intro name other
    unfold member
    split <;> simp_all [known]
  reads := forall_known.mpr ⟨Reader.reads_natural, Reader.reads_bool, Reader.reads_text,
    SourceFilter.reads_spelled⟩
  distinct := by decide
  get_put := by
    simp [known]
  frame := by
    simp [known]
  ext := by
    rintro ⟨⟩ ⟨⟩ same
    simpa [known] using same

theorem reads_listed {given : Given} {entries : List (String × List Char)}
    (listed : given.ListedIn entries) {text : List Char} (object : ObjectText entries text) :
    Reader.Reads reader text (given.over {}) := by
  refine layout.reads_object given object ?_ ?_ ?_ rfl
  · simp [known]
  · exact forall_known.mpr ⟨listed.sweepInterval, listed.outlineWrites, listed.logFilter,
      listed.sourceFilter⟩
  · exact listed.unknown

theorem Given.ListedIn.of_perm {given : Given} {entries others : List (String × List Char)}
    (listed : given.ListedIn entries)
    (perm : (others.filter (·.1 ∈ names)).Perm (entries.filter (·.1 ∈ names)))
    (unknown : ∀ entry ∈ others, entry.1 ∉ names → WellFormed entry.2) : given.ListedIn others where
  sweepInterval := listed.sweepInterval.of_perm (by decide) perm
  outlineWrites := listed.outlineWrites.of_perm (by decide) perm
  logFilter := listed.logFilter.of_perm (by decide) perm
  sourceFilter := listed.sourceFilter.of_perm (by decide) perm
  unknown := unknown

/-- The settings are valid unless their log filter is blank or an infix is empty. -/
theorem validate_eq_ok_iff (settings other : Settings) : settings.validate = .ok other ↔
    other = settings ∧ Text.isBlank settings.logFilter = false ∧
      "" ∉ settings.sourceFilter.excludedInfixes := by
  unfold validate
  split
  next blank =>
    rw [blank]
    exact ⟨nofun, nofun⟩
  next visible =>
    split
    next empty => exact ⟨nofun, fun h => absurd (List.contains_iff_mem.mp empty) h.2.2⟩
    next filled =>
      constructor
      · rintro ⟨⟩
        exact ⟨rfl, Bool.eq_false_iff.mpr visible, fun mem => filled (List.contains_iff_mem.mpr mem)⟩
      · rintro ⟨rfl, -⟩
        rfl

theorem parse_of_document {source : String} {settings : Settings}
    (read : Reader.document reader source = .ok settings) : parse source = settings.validate := by
  unfold parse
  rw [read]

/-- Settings that are given in part replace the defaults that they list, and no others, whatever the
    order of the members and whatever stands between them; they are accepted if the result is valid. -/
theorem parse_given {given : Given} {entries : List (String × List Char)} {source : String}
    (object : DocumentOf (ObjectText entries) source.toList) (listed : given.ListedIn entries) :
    Reader.document reader source = .ok (given.over {}) ∧
    (∀ settings, parse source = .ok settings ↔ settings = given.over {} ∧
      Text.isBlank settings.logFilter = false ∧ "" ∉ settings.sourceFilter.excludedInfixes) ∧
    ∀ (others : List (String × List Char)) (source' : String),
      DocumentOf (ObjectText others) source'.toList →
      (others.filter (·.1 ∈ names)).Perm (entries.filter (·.1 ∈ names)) →
      (∀ entry ∈ others, entry.1 ∉ names → WellFormed entry.2) →
      Reader.document reader source' = Reader.document reader source ∧
        parse source' = parse source := by
  have read : ∀ {entries source'}, DocumentOf (ObjectText entries) (String.toList source') →
      given.ListedIn entries → Reader.document reader source' = .ok (given.over {}) :=
    fun object listed => Reader.document_eq_ok object (reads_listed listed)
  refine ⟨read object listed, fun settings => ?_, fun others source' object' perm unknown => ?_⟩
  · rw [parse_of_document (read object listed), validate_eq_ok_iff]
    constructor
    · rintro ⟨rfl, valid⟩
      exact ⟨rfl, valid⟩
    · rintro ⟨rfl, valid⟩
      exact ⟨rfl, valid⟩
  · have read' := read object' (listed.of_perm perm unknown)
    rw [parse_of_document read', parse_of_document (read object listed), read', read object listed]
    exact ⟨rfl, rfl⟩

theorem parse_given_debug :
    parse (String.ofList (Value.object [("host", .null), ("log_filter", .text "debug"),
      ("source_filter", .object [("skip_internal", .bool false)])]).write) =
        .ok { logFilter := "debug", sourceFilter := { skipInternal := false } } := by
  have filter : SourceFilter.SpelledBy { skipInternal := false }
      (Value.object [("skip_internal", .bool false)]).write := by
    refine ⟨{ skipInternal := some false }, _, objectText_write _, ⟨?_, ?_, ?_, ?_, ?_⟩, rfl⟩
    · simp [Gives]
    · simp [Gives]
    · simp [Gives]
    · exact ⟨_, rfl, rfl⟩
    · simp [SourceFilter.names]
  refine ((parse_given (documentOf_write (objectText_write _)) (⟨?_, ?_, ?_, ?_, ?_⟩ : Given.ListedIn
    ⟨none, none, some "debug", some { skipInternal := false }⟩ _)).2.1 _).mpr
      ⟨rfl, by decide, by decide⟩
  · simp [Gives]
  · simp [Gives]
  · exact ⟨_, rfl, spellsText_writeText _⟩
  · exact ⟨_, rfl, filter⟩
  · simp [names, WellFormed.null]

end Settings

/-! ### Arguments and categories -/

/-- A count that fits into 64 bits. -/
def ArgumentCount.Fits : ArgumentCount → Prop
  | declared count => count < 2 ^ 64
  | fromFrame => True

theorem ArgumentCount.reads_write {count : ArgumentCount} (fits : count.Fits) :
    Reader.Reads reader count.toValue.write count := by
  cases count with
  | declared n =>
    have text : (declared n).toValue.write = enclosed '\x7b' '\x7d'
        [memberText (.bare (writeText "Declared"), .bare (Value.natural n).write)] := by
      simp [toValue, Value.write, writeMembers, enclosed, memberText, Part.text_bare]
    rw [text]
    have content := Reader.reads_natural (n := n) ⟨fits, rfl⟩
    exact Reader.reads_choice_holding rfl ⟨Part.padded_bare _, Part.padded_bare _⟩
      (spellsText_writeText _) ⟨content.begins, fun blank ends =>
        Reader.run_map_of (content.run blank ends) _⟩
  | fromFrame => exact Reader.reads_choice_plain rfl (spellsText_writeText _)

namespace ArgumentSlot

def known : List (Reader.Known Given) := [
  { name := "index", get := (·.index), item := Reader.natural,
    put := fun v given => { given with index := some v }, spells := SpellsNatural },
  { name := "count", get := (·.count), item := ArgumentCount.reader,
    put := fun v given => { given with count := some v },
    spells := fun count text => count.Fits ∧ text = count.toValue.write }]

theorem forall_known {p : Reader.Known Given → Prop} : (∀ k ∈ known, p k) ↔
    p known[0] ∧ p known[1] := by
  simp [known]

theorem layout : Reader.Layout member known where
  once := forall_known.mpr ⟨rfl, rfl⟩
  unknown := by
    intro name other
    unfold member
    split <;> simp_all [known]
  reads := by
    refine forall_known.mpr ⟨Reader.reads_natural, ?_⟩
    rintro count text ⟨fits, rfl⟩
    exact ArgumentCount.reads_write fits
  distinct := by decide
  get_put := by
    simp [known]
  frame := by
    simp [known]
  ext := by
    rintro ⟨⟩ ⟨⟩ same
    simpa [known] using same

theorem reads_write {slot : ArgumentSlot} (index : slot.index < 2 ^ 64) (count : slot.count.Fits) :
    Reader.Reads reader slot.toValue.write slot := by
  refine layout.reads_object ⟨some slot.index, some slot.count⟩ (objectText_write _)
    ?_ ?_ ?_ rfl
  · simp [known]
  · exact forall_known.mpr ⟨⟨_, rfl, index, rfl⟩, ⟨_, rfl, count, rfl⟩⟩
  · simp [known]

end ArgumentSlot

theorem Category.ofName?_name (c : Category) : ofName? c.name = some c := by
  cases c <;> rfl

theorem Category.reads_write (c : Category) : Reader.Reads reader c.toValue.write c := by
  refine Reader.reads_choice_plain ?_ (spellsText_writeText c.name)
  rw [ofName?_name]
  rfl

/-! ### Reading back -/

/-- The document that is written for a value is read as this value. -/
def ReadsBack {α : Type} (toValue : α → Value) (reader : Reader α) (a : α) : Prop :=
  Reader.document reader (String.ofList (toValue a).write) = .ok a

theorem readsBack_of_reads {α : Type} {toValue : α → Value} {reader : Reader α} {a : α}
    (h : Reader.Reads reader (toValue a).write a) : ReadsBack toValue reader a :=
  have written : DocumentOf (· = (toValue a).write) (String.ofList (toValue a).write).toList :=
    documentOf_write rfl
  Reader.document_eq_ok written fun eq => eq ▸ h

theorem SourceFilter.spelledBy_write (filter : SourceFilter) :
    filter.SpelledBy filter.toValue.write := by
  refine ⟨⟨some filter.excludedInfixes, some filter.excludedNames, some filter.skipSynthetic,
    some filter.skipInternal⟩, _, objectText_write _, ⟨?_, ?_, ?_, ?_, ?_⟩, rfl⟩
  · exact ⟨_, rfl, spellsList_write spellsText_writeText _⟩
  · exact ⟨_, rfl, spellsList_write spellsText_writeText _⟩
  · exact ⟨_, rfl, rfl⟩
  · exact ⟨_, rfl, rfl⟩
  · simp [names]

theorem Settings.reads_write {settings : Settings} (interval : settings.sweepInterval < 2 ^ 64) :
    Reader.Reads reader settings.toValue.write settings := by
  refine reads_listed (⟨?_, ?_, ?_, ?_, ?_⟩ : Given.ListedIn ⟨some settings.sweepInterval,
    some settings.outlineWrites, some settings.logFilter, some settings.sourceFilter⟩ _)
    (objectText_write _)
  · exact ⟨_, rfl, interval, rfl⟩
  · exact ⟨_, rfl, rfl⟩
  · exact ⟨_, rfl, spellsText_writeText _⟩
  · exact ⟨_, rfl, settings.sourceFilter.spelledBy_write⟩
  · simp [names]

/-- Whatever is written as a document is read back unchanged, and settings that are read back are
    accepted if they are valid: the log filter is looked at first. -/
theorem documents_read_back :
    (∀ settings : Settings, settings.sweepInterval < 2 ^ 64 →
      ReadsBack Settings.toValue Settings.reader settings ∧
      Settings.parse (String.ofList settings.toValue.write) =
        if Text.isBlank settings.logFilter then .error (.configuration .blankLogFilter)
        else if "" ∈ settings.sourceFilter.excludedInfixes then .error (.configuration .emptyInfix)
        else .ok settings) ∧
    (∀ filter, ReadsBack SourceFilter.toValue SourceFilter.reader filter) ∧
    (∀ slot : ArgumentSlot, slot.index < 2 ^ 64 → slot.count.Fits →
      ReadsBack ArgumentSlot.toValue ArgumentSlot.reader slot) ∧
    (∀ count : ArgumentCount, count.Fits →
      ReadsBack ArgumentCount.toValue ArgumentCount.reader count) ∧
    (∀ c, ReadsBack Category.toValue Category.reader c) ∧
    (∀ id : SiteId, id.number < 2 ^ 64 → ReadsBack SiteId.toValue SiteId.reader id) ∧
    ∀ name : String, ReadsBack Value.text Reader.text name := by
  refine ⟨fun settings interval => ⟨?_, ?_⟩, fun filter => ?_, fun slot index count => ?_,
    fun count fits => ?_, fun c => ?_, fun id fits => ?_, fun name => ?_⟩
  · exact readsBack_of_reads (Settings.reads_write interval)
  · rw [Settings.parse_of_document (readsBack_of_reads (Settings.reads_write interval)),
      Settings.validate]
    simp only [List.contains_iff_mem]
  · exact readsBack_of_reads (SourceFilter.reads_spelled filter.spelledBy_write)
  · exact readsBack_of_reads (ArgumentSlot.reads_write index count)
  · exact readsBack_of_reads (ArgumentCount.reads_write fits)
  · exact readsBack_of_reads (Category.reads_write c)
  · have number := Reader.reads_natural (n := id.number) ⟨fits, rfl⟩
    exact readsBack_of_reads ⟨number.begins, fun blank ends =>
      Reader.run_map_of (number.run blank ends) SiteId.mk⟩
  · exact readsBack_of_reads (Reader.reads_text (spellsText_writeText name))

/-- Settings with the largest interval there is, and with texts that have to be escaped. -/
def Settings.awkward : Settings where
  sweepInterval := 2 ^ 64 - 1
  outlineWrites := true
  logFilter := "a=\"debug\",\\b\t"
  sourceFilter :=
    { excludedInfixes := ["/\u00e9t\u00e9/", "\"", "\\\\", "/"]
      excludedNames := ["\n\r", "\x00\x01\x08\x0c\x1f\x7f", "\u4e2d\u2028😀", ""]
      skipSynthetic := false }

theorem documents_read_back_awkward :
    Settings.awkward.sweepInterval < 2 ^ 64 ∧
    ReadsBack Settings.toValue Settings.reader .awkward ∧
    Settings.parse (String.ofList Settings.awkward.toValue.write) = .ok .awkward ∧
    ReadsBack SourceFilter.toValue SourceFilter.reader Settings.awkward.sourceFilter ∧
    ReadsBack ArgumentSlot.toValue ArgumentSlot.reader ⟨2 ^ 64 - 1, .declared (2 ^ 64 - 1)⟩ ∧
    ReadsBack ArgumentCount.toValue ArgumentCount.reader .fromFrame ∧
    ReadsBack SiteId.toValue SiteId.reader ⟨2 ^ 64 - 1⟩ ∧
    ReadsBack Value.text Reader.text "\"\\/\x00\x1f\u00e9\u4e2d" := by
  obtain ⟨settings, filters, slots, counts, -, ids, names⟩ := documents_read_back
  have largest : 2 ^ 64 - 1 < 2 ^ 64 := by decide
  have read := settings .awkward largest
  refine ⟨largest, read.1, read.2.trans ?_, filters _, slots _ largest largest, counts _ trivial,
    ids _ largest, names _⟩
  decide

end Lineage
