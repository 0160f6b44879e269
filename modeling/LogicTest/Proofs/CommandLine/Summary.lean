import LogicTest.CommandLine.Run
import LogicTest.Proofs.Directory.Follow
import LogicTest.Proofs.Json
import LogicTest.Proofs.Text.Utf8

/-!
# The summary file

A run that is asked for a summary file makes the file and writes it, and fails if one of the two
fails (`SummaryFails`). Otherwise the file is there as a whole (`writeSummary_cases`), and the
totals are read back off its bytes, each figure by its name (`ofBytes?_summary`).
-/
namespace LogicTest

/-! ## Documents whose fields hold numbers -/

namespace Json

/-- Reads a field of a compact document: a name between quotation marks, a colon and a number. -/
def field? (text : Text) : Option (Text × Nat) :=
  match text.splitOn '"' with
  | [[], name, ':' :: digits] =>
    if digits ≠ [] ∧ digits.all Char.isDigit then some (name, Nat.ofDigitChars 10 digits 0)
    else none
  | _ => none

/-- Reads a compact document, the braces around it first and then field by field. -/
def fields? : Text → Option (List (Text × Nat))
  | '\x7b' :: rest =>
    if rest.getLast? = some '\x7d' then (rest.dropLast.splitOn ',').mapM field? else none
  | _ => none

/-- A name that is written as it is and in which no field ends. -/
def PlainName (name : Text) : Prop := ∀ c ∈ name, c ∉ escaped ∧ c ≠ ','

/-- A field of a compact document. -/
def writeField (field : Text × Nat) : Text :=
  '"' :: field.1 ++ '"' :: ':' :: Numeral.toText field.2

theorem plainName_of_lower {name : Text} (h : name.all fun c => c.isLower || c = '_') :
    PlainName name := by
  have hescaped : (',' :: escaped).all fun c => !(c.isLower || c = '_') := by decide +kernel
  intro c hc
  have hnot : c ∉ ',' :: escaped := fun hmem => by
    have hlower := List.all_eq_true.1 hescaped c hmem
    rw [List.all_eq_true.1 h c hc] at hlower
    cases hlower
  rw [List.mem_cons, not_or] at hnot
  exact hnot.symm

theorem writeString_of_plain {name : Text} (h : PlainName name) :
    writeString name = '"' :: name ++ ['"'] := by
  have hname : name.flatMap escapeChar = name := by
    refine (List.flatMap_congr fun c hc => escapeChar_of_plain (h c hc).1).trans ?_
    exact List.flatMap_singleton' name
  rw [writeString, hname]

theorem field?_writeField {field : Text × Nat} (h : PlainName field.1) :
    field? (writeField field) = some field := by
  obtain ⟨name, n⟩ := field
  have hname : '"' ∉ name := fun hmem => (h _ hmem).1 (by decide)
  have hvalue : '"' ∉ ':' :: Numeral.toText n := by
    rw [List.mem_cons, not_or]
    exact ⟨by decide, Numeral.not_mem_toText (by decide) n⟩
  have hparts : (writeField (name, n)).splitOn '"' = [[], name, ':' :: Numeral.toText n] := by
    have hwritten : writeField (name, n) = [] ++ '"' :: (name ++ '"' :: ':' :: Numeral.toText n) :=
      rfl
    rw [hwritten, List.splitOn_append_cons_self_of_not_mem List.not_mem_nil,
      List.splitOn_append_cons_self_of_not_mem hname, List.splitOn_eq_singleton hvalue]
  have hdigits : (Numeral.toText n).all Char.isDigit = true :=
    List.all_eq_true.2 fun c hc => Numeral.isDigit_of_mem_toText hc
  unfold field?
  rw [hparts]
  simp only [ne_eq, Numeral.toText_ne_nil, not_false_eq_true, hdigits, and_self, if_true]
  rw [Numeral.toText, Nat.ofDigitChars_ten_toDigits]

section
variable {fields : List (Text × Nat)}

/-- The document of some fields. -/
def ofFields (fields : List (Text × Nat)) : Json :=
  .object (fields.map fun field => (field.1, .number field.2))

theorem compactFields_eq (h : ∀ field ∈ fields, PlainName field.1) :
    compactFields (fields.map fun field => (field.1, .number field.2)) =
      fields.flatMap (',' :: writeField ·) := by
  induction fields with
  | nil => rfl
  | cons field fields ih =>
    obtain ⟨hfield, hall⟩ := List.forall_mem_cons.1 h
    rw [List.map_cons, compactFields, ih hall, writeString_of_plain hfield, compact]
    simp [writeField]

theorem not_mem_writeField {field : Text × Nat} (h : PlainName field.1) :
    ',' ∉ writeField field := by
  have hname : ',' ∉ field.1 := fun hmem => (h _ hmem).2 rfl
  have hvalue := Numeral.not_mem_toText (show ','.isDigit = false by decide) field.2
  simp [writeField, hname, hvalue]

theorem splitOn_fields {first : Text × Nat} (hfirst : PlainName first.1)
    (h : ∀ field ∈ fields, PlainName field.1) :
    (writeField first ++ fields.flatMap (',' :: writeField ·)).splitOn ',' =
      (first :: fields).map writeField := by
  induction fields generalizing first with
  | nil =>
    rw [List.flatMap_nil, List.append_nil, List.splitOn_eq_singleton (not_mem_writeField hfirst)]
    rfl
  | cons field fields ih =>
    obtain ⟨hfield, hall⟩ := List.forall_mem_cons.1 h
    rw [List.flatMap_cons, List.cons_append,
      List.splitOn_append_cons_self_of_not_mem (not_mem_writeField hfirst), ih hfield hall,
      List.map_cons, List.map_cons, List.map_cons]

theorem mapM_field? (h : ∀ field ∈ fields, PlainName field.1) :
    (fields.map writeField).mapM field? = some fields := by
  induction fields with
  | nil => rfl
  | cons field fields ih =>
    obtain ⟨hfield, hall⟩ := List.forall_mem_cons.1 h
    rw [List.map_cons, List.mapM_cons, field?_writeField hfield, ih hall]
    rfl

/-- The fields are read back off the document. -/
theorem fields?_compact (hne : fields ≠ []) (h : ∀ field ∈ fields, PlainName field.1) :
    fields? (ofFields fields).compact = some fields := by
  obtain ⟨first, others, rfl⟩ := List.exists_cons_of_ne_nil hne
  obtain ⟨hfirst, hothers⟩ := List.forall_mem_cons.1 h
  have hcompact : (ofFields (first :: others)).compact =
      '\x7b' :: (writeField first ++ others.flatMap (',' :: writeField ·) ++ ['\x7d']) := by
    rw [ofFields, List.map_cons, compact, compactFields_eq hothers, writeString_of_plain hfirst,
      compact]
    simp [writeField]
  rw [hcompact, fields?, if_pos List.getLast?_concat, List.dropLast_concat,
    splitOn_fields hfirst hothers, mapM_field? h]

end

end Json

namespace CommandLine

/-- The figures of totals, each with its name. -/
def Totals.fields (totals : Totals) : List (Text × Nat) :=
  [("files".toList, totals.files), ("parse_failures".toList, totals.failures),
    ("statements".toList, totals.statements), ("queries".toList, totals.queries),
    ("halted".toList, totals.halted)]

/-- Reads totals off the bytes of a summary file, each figure by its name. -/
def Totals.ofBytes? (bytes : List UInt8) : Option Totals := do
  let fields ← Json.fields? (← Utf8.decode? bytes)
  return ⟨← fields.lookup "files".toList, ← fields.lookup "parse_failures".toList,
    ← fields.lookup "statements".toList, ← fields.lookup "queries".toList,
    ← fields.lookup "halted".toList⟩

theorem Totals.ofBytes?_summary (totals : Totals) :
    ofBytes? (Utf8.encode totals.toJson.compact) = some totals := by
  have hlower : (totals.fields.map (·.1)).all (·.all fun c => c.isLower || c = '_') := by rfl
  have hnames (name : Text) (h : name ∈ totals.fields.map (·.1)) : Json.PlainName name :=
    Json.plainName_of_lower (List.all_eq_true.1 hlower name h)
  have hfields : Json.fields? (Json.ofFields totals.fields).compact = some totals.fields :=
    Json.fields?_compact (List.cons_ne_nil _ _) (List.forall_mem_map.1 hnames)
  have hdocument : totals.toJson = Json.ofFields totals.fields := rfl
  rw [ofBytes?, Utf8.decode?_encode, hdocument]
  simp only [Option.bind_eq_bind, Option.bind_some, hfields]
  rfl

/-! ## How making the file can fail -/

/-- The summary file that is asked for cannot be made, or what it is to hold is more than the system
writes. -/
inductive SummaryFails (options : Options) (tree : FileTree) (summary : Text) :
    Path → SummaryError → Prop where
  | notCreated {path : Path} {cause : FileError} (asked : options.summaryFile = some path)
      (unmade : tree.target path = .error cause) :
      SummaryFails options tree summary path (.notCreated cause)
  | notWritten {path : Path} {location : List Name} {limit : WriteLimit}
      (asked : options.summaryFile = some path) (made : tree.target path = .ok location)
      (limited : tree.limit = some limit) (short : limit.size < (Utf8.encode summary).length) :
      SummaryFails options tree summary path (.notWritten limit.cause)

section
variable {options : Options} {tree : FileTree} {summary : Text}

theorem SummaryFails.asked {path : Path} {error : SummaryError}
    (h : SummaryFails options tree summary path error) : options.summaryFile = some path := by
  cases h with
  | notCreated asked | notWritten asked => exact asked

theorem SummaryFails.unique {path other : Path} {error cause : SummaryError}
    (h : SummaryFails options tree summary path error)
    (h' : SummaryFails options tree summary other cause) : other = path ∧ cause = error := by
  cases h.asked.symm.trans h'.asked
  refine ⟨rfl, ?_⟩
  cases h with
  | notCreated _ unmade =>
    cases h' with
    | notCreated _ unmade' =>
      cases unmade.symm.trans unmade'
      rfl
    | notWritten _ made' => cases unmade.symm.trans made'
  | notWritten _ made limited =>
    cases h' with
    | notCreated _ unmade' => cases made.symm.trans unmade'
    | notWritten _ _ limited' =>
      cases limited.symm.trans limited'
      rfl

/-- What can be written as a whole is. -/
theorem fill_cases (tree : FileTree) (location : List Name) (content : List UInt8) :
    (∃ limit, tree.limit = some limit ∧ limit.size < content.length ∧
      tree.fill location content =
        (tree.put (.file (content.take limit.size)) location, some limit.cause)) ∨
    (∀ limit, tree.limit = some limit → content.length ≤ limit.size) ∧
      tree.fill location content = (tree.put (.file content) location, none) := by
  unfold FileTree.fill
  cases hlimit : tree.limit with
  | none => exact .inr ⟨nofun, rfl⟩
  | some limit =>
    by_cases hsize : limit.size < content.length
    · rw [Option.filter_some, if_pos (decide_eq_true hsize)]
      exact .inl ⟨limit, rfl, hsize, rfl⟩
    · rw [Option.filter_some, if_neg (by simpa using hsize)]
      refine .inr ⟨?_, rfl⟩
      rintro _ ⟨⟩
      exact Nat.not_lt.1 hsize

theorem writeSummary_of_error {path : Path} {cause : FileError}
    (asked : options.summaryFile = some path) (unmade : tree.target path = .error cause) :
    writeSummary options tree summary = (tree, some (.notCreated cause)) := by
  unfold writeSummary
  simp only [asked, unmade]

theorem writeSummary_of_ok {path : Path} {location : List Name}
    (asked : options.summaryFile = some path) (made : tree.target path = .ok location) :
    writeSummary options tree summary =
      ((tree.fill location (Utf8.encode summary)).1,
        (tree.fill location (Utf8.encode summary)).2.map .notWritten) := by
  unfold writeSummary
  simp only [asked, made]

/-- The summary file fails for a reason, or it is there as a whole. -/
theorem writeSummary_cases (options : Options) (tree : FileTree) (summary : Text) :
    (∃ path error, SummaryFails options tree summary path error ∧
      (writeSummary options tree summary).2 = some error) ∨
    (∀ path error, ¬ SummaryFails options tree summary path error) ∧
      (writeSummary options tree summary).2 = none ∧
      ∀ path, options.summaryFile = some path →
        (writeSummary options tree summary).1.contentAt? path = some (Utf8.encode summary) := by
  cases hasked : options.summaryFile with
  | none =>
    refine .inr ⟨fun path error h => ?_, by rw [writeSummary, hasked], nofun⟩
    cases hasked.symm.trans h.asked
  | some path =>
    cases htarget : tree.target path with
    | error cause =>
      exact .inl ⟨path, _, .notCreated hasked htarget, by rw [writeSummary_of_error hasked htarget]⟩
    | ok location =>
      have hwritten : writeSummary options tree summary = _ := writeSummary_of_ok hasked htarget
      rcases fill_cases tree location (Utf8.encode summary) with
        ⟨limit, hlimit, hshort, hfill⟩ | ⟨hfits, hfill⟩
      · refine .inl ⟨path, _, .notWritten hasked htarget hlimit hshort, ?_⟩
        rw [hwritten, hfill, Option.map_some]
      · rw [hwritten, hfill]
        refine .inr ⟨fun other error h => ?_, rfl, ?_⟩
        · cases h with
          | notCreated asked unmade =>
            cases hasked.symm.trans asked
            cases htarget.symm.trans unmade
          | notWritten _ _ limited short => exact Nat.not_le.2 short (hfits _ limited)
        · rintro _ ⟨⟩
          exact FileTree.contentAt?_put htarget _

end

end CommandLine
end LogicTest
