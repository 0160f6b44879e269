import LogicTest.Proofs.Directory.Outline
import LogicTest.Proofs.Division.Replay
import LogicTest.Proofs.Source
import LogicTest.Proofs.Walk

/-!
# Batches

A batch walks its roots one after the other and parses each file that it comes to by its path. So
each parse is that of one file by itself, and a file that gets another content changes the parses of
paths that lead to it and nothing else (`parseFiles_independent`).
-/
namespace LogicTest

/-- What a parse is of: the name of its script, or the file of its error. -/
def Parse.subject (parsed : Parse) : Text :=
  match parsed.result with
  | .ok script => script.name
  | .error error => error.file

theorem subject_parse (policy : Policy) (name : Text) (source : Source) :
    (parse policy name source).subject = name := by
  rw [Parse.subject, parse_result]
  cases breakAfter policy source.division.items source.division.break? <;> rfl

/-- The path of a text is shown as that text. -/
theorem Path.display_ofText (text : Text) : (ofText text).display = text :=
  Utf8.decodeLossy_of_decode? (Utf8.decode?_encode text)

/-- With each parse stands the path that it is of. -/
theorem subject_parseFound (policy : Policy) (found : Found) :
    (parseFound policy found).2.subject = (parseFound policy found).1.display := by
  cases found with
  | closed path cause => exact (Path.display_ofText path.display).symm
  | file path content =>
    rw [parseFound]
    cases Directory.pathError? path with
    | some cause => rfl
    | none => exact subject_parse policy path.display _

/-- A file that was found is parsed, or it could not be read at all. -/
theorem parseFound_cases (policy : Policy) (found : Found) :
    (∃ name content, (parseFound policy found).2 = parse policy name (.ofBytes content)) ∨
      ∃ error, (parseFound policy found).2 = .failed error := by
  cases found with
  | closed path cause => exact .inr ⟨_, rfl⟩
  | file path content =>
    rw [parseFound]
    cases Directory.pathError? path with
    | some cause => exact .inr ⟨_, rfl⟩
    | none => exact .inl ⟨_, _, rfl⟩

theorem subject_of_mem_parseFiles {policy : Policy} {view : FileView} {roots : List Path}
    {pair : Path × Parse} (h : pair ∈ parseFiles policy view roots) :
    pair.2.subject = pair.1.display := by
  obtain ⟨root, _, h⟩ := List.mem_flatMap.1 h
  obtain ⟨found, _, rfl⟩ := List.mem_map.1 h
  exact subject_parseFound policy found

/-- A batch has one parse for each path that the walks of its roots come to, in their order. -/
theorem parseFiles_paths (policy : Policy) (view : FileView) (roots : List Path) :
    (parseFiles policy view roots).map (·.1) = (roots.flatMap (walk view)).map walkedPath := by
  rw [parseFiles, List.map_flatMap, List.map_flatMap]
  congr 1
  funext root
  rw [walk, List.map_map, List.map_map]
  refine List.map_congr_left fun found _ => ?_
  cases found <;> rfl

/-! ## Files by their paths -/

/-- Parses what a walk has come to. -/
def parseWalked (policy : Policy) (view : FileView) : Except ScriptError Path → Path × Parse
  | .ok path => (path, parseFile policy view path)
  | .error error => (.ofText error.file, .failed error)

section
variable {tree : FileTree}

/-- A file that is found can be parsed by its path. -/
theorem parseFound_eq (policy : Policy) (htree : tree.root.WellFormed) {root : Path}
    {found : Found} (h : found ∈ findFiles tree.lookup root) :
    parseFound policy found = parseWalked policy tree.lookup found.walked := by
  cases found with
  | closed path cause => rfl
  | file path content =>
    rw [findFiles] at h
    split at h
    next entry hentry =>
      obtain ⟨⟨location, hdenotes, hlocation⟩, -⟩ := FileTree.denotes_of_found htree hentry h
      have hlookup := tree.lookup_eq path
      rw [parseFound, Found.walked, parseWalked, parseFile]
      cases herror : Directory.pathError? path with
      | some cause =>
        rw [herror] at hlookup
        rw [hlookup]
      | none => rw [FileTree.lookup_eq_ok_iff.2 ⟨herror, location, hdenotes, hlocation⟩]
    · cases List.mem_singleton.1 h

/-- A batch opens each file that its walks come to, and nothing else. -/
theorem parseFiles_eq (policy : Policy) (htree : tree.root.WellFormed) (roots : List Path) :
    parseFiles policy tree.lookup roots =
      (roots.flatMap (walk tree.lookup)).map (parseWalked policy tree.lookup) := by
  rw [parseFiles, List.map_flatMap]
  congr 1
  funext root
  rw [walk_eq, List.map_map]
  exact List.map_congr_left fun found hfound => parseFound_eq policy htree hfound

/-- What the file at a path gives: its bytes are parsed under that path, which must not be too
long. -/
theorem parseFile_of_found (policy : Policy) {path : Path} {location : List Name}
    {content : List UInt8} (hdenotes : tree.Denotes path location)
    (hlocation : tree.root.entryAt? location = some (.file content))
    (herror : Directory.pathError? path =
      if path.length ≤ Directory.pathLimit then none else some .nameTooLong) :
    parseFile policy tree.lookup path =
      if path.length ≤ Directory.pathLimit then parse policy path.display (.ofBytes content)
      else .failed ⟨path.display, 0, .openFailed .nameTooLong⟩ := by
  rw [parseFile]
  split at herror
  next hsize =>
    rw [FileTree.lookup_eq_ok_iff.2 ⟨herror, location, hdenotes, hlocation⟩, if_pos hsize]
    rfl
  next hsize =>
    rw [FileTree.lookup_eq, herror, if_neg hsize]
    rfl

/-- Each file that a walk comes to is one of the tree. -/
theorem exists_file_of_walk (htree : tree.root.WellFormed) {root path : Path}
    (h : .ok path ∈ walk tree.lookup root) :
    ∃ location content, tree.Denotes path location ∧
      tree.root.entryAt? location = some (.file content) ∧
      Directory.pathError? path =
        if path.length ≤ Directory.pathLimit then none else some .nameTooLong := by
  rw [walk_eq] at h
  obtain ⟨found, hfound, hwalked⟩ := List.mem_map.1 h
  cases found with
  | closed other cause => cases hwalked
  | file other content =>
    cases hwalked
    rw [findFiles] at hfound
    split at hfound
    next entry hentry =>
      obtain ⟨⟨location, hdenotes, hlocation⟩, herror⟩ :=
        FileTree.denotes_of_found htree hentry hfound
      exact ⟨location, content, hdenotes, hlocation, herror⟩
    · cases List.mem_singleton.1 hfound

/-- The parse of a file depends on its path and its content only. -/
theorem parseFile_congr (policy : Policy) {one two : FileView} {path : Path}
    (h : (one path).map Entry.content? = (two path).map Entry.content?) :
    parseFile policy one path = parseFile policy two path := by
  unfold parseFile
  revert h
  rcases one path with cause | content | entries <;>
    rcases two path with cause | content | entries <;> rintro ⟨⟩ <;> rfl

/-- What a walk comes to is parsed alike when another file gets another content. -/
theorem parseWalked_put (policy : Policy) {location : List Name} {former : List UInt8}
    (hformer : tree.root.entryAt? location = some (.file former)) (content : List UInt8)
    {walked : Except ScriptError Path}
    (hdenotes : ¬ tree.Denotes (parseWalked policy tree.lookup walked).1 location) :
    parseWalked policy (tree.put (.file content) location).lookup walked =
      parseWalked policy tree.lookup walked := by
  cases walked with
  | error error => rfl
  | ok path =>
    have hdenotes : ¬ tree.Denotes path location := hdenotes
    rw [parseWalked, parseWalked,
      parseFile_congr policy (FileTree.content?_lookup_put hformer content hdenotes)]

end

/-- Each file of a batch is parsed by itself. There is one parse for each path that the walks of the
roots come to, in their order, and it is of that path as it is shown, which for the path of a text
is that text. The walk of a root comes to each file below it once; the parse of a file depends on
the path and the content of that file only, and a path that is too long is an error of its own. So a
file that gets another content changes no path of the batch, and no parse but those of paths that
lead to it. -/
theorem parseFiles_independent (policy : Policy) {tree : FileTree}
    (htree : tree.root.WellFormed) (roots : List Path) :
    let walked := roots.flatMap (walk tree.lookup)
    let batch := parseFiles policy tree.lookup roots
    (batch = walked.map (parseWalked policy tree.lookup) ∧
      ∀ pair ∈ batch, pair.2.subject = pair.1.display ∧
        ∀ text, pair.1 = .ofText text → pair.2.subject = text) ∧
    (∀ root entries location content, tree.lookup root = .ok (.directory entries) →
      entries.entryAt? location = some (.file content) →
      let path := Directory.pathBelow (Directory.stemOf root) location
      path.length ≤ Directory.pathLimit →
      ((walk tree.lookup root).filterMap Except.toOption).count path = 1) ∧
    (∀ path, .ok path ∈ walked → ∃ location content, tree.Denotes path location ∧
      tree.root.entryAt? location = some (.file content) ∧
      if path.length ≤ Directory.pathLimit then
        parseFile policy tree.lookup path = parse policy path.display (.ofBytes content) ∧
        ∀ text, Utf8.decode? content = some text →
          parseFile policy tree.lookup path = parseText policy path.display text
      else parseFile policy tree.lookup path =
        .failed ⟨path.display, 0, .openFailed .nameTooLong⟩) ∧
    ∀ location former content, tree.root.entryAt? location = some (.file former) →
      let changed := parseFiles policy (tree.put (.file content) location).lookup roots
      changed.map (·.1) = batch.map (·.1) ∧
      ∀ (i : Nat) (pair : Path × Parse), batch[i]? = some pair →
        ¬ tree.Denotes pair.1 location → changed[i]? = some pair := by
  intro walked batch
  refine ⟨⟨parseFiles_eq policy htree roots, fun pair hpair => ?_⟩,
    fun root entries location content hroot hfile hsize => count_walk htree hroot hfile hsize,
    fun path hpath => ?_, fun location former content hformer => ?_⟩
  · have hsubject := subject_of_mem_parseFiles hpair
    exact ⟨hsubject, fun text htext => by rw [hsubject, htext, Path.display_ofText]⟩
  · obtain ⟨root, _, hpath⟩ := List.mem_flatMap.1 hpath
    obtain ⟨location, content, hdenotes, hlocation, herror⟩ := exists_file_of_walk htree hpath
    have hparse := parseFile_of_found policy hdenotes hlocation herror
    refine ⟨location, content, hdenotes, hlocation, ?_⟩
    split
    next hsize =>
      rw [hparse, if_pos hsize]
      refine ⟨rfl, fun text htext => ?_⟩
      rw [Source.ofBytes_eq_ofText htext, parseText]
    next hsize => rw [hparse, if_neg hsize]
  · intro changed
    have hwalks : roots.flatMap (walk (tree.put (.file content) location).lookup) = walked := by
      congr 1
      funext root
      exact FileTree.walk_put hformer content root
    have hchanged : changed =
        walked.map (parseWalked policy (tree.put (.file content) location).lookup) := by
      rw [← hwalks]
      exact parseFiles_eq policy (Directory.wellFormed_put hformer content htree) roots
    have hbatch : batch = walked.map (parseWalked policy tree.lookup) :=
      parseFiles_eq policy htree roots
    constructor
    · simp only [changed, batch, parseFiles_paths, hwalks, walked]
    · intro i pair hpair hdenotes
      rw [hbatch, List.getElem?_map] at hpair
      rw [hchanged, List.getElem?_map]
      obtain ⟨item, hitem, rfl⟩ := Option.map_eq_some_iff.1 hpair
      rw [hitem, Option.map_some, parseWalked_put policy hformer content hdenotes]

/-- A file is parsed alike whatever is in the file next to it, under an absolute path and under one
from the current directory. -/
theorem parseFiles_independent_sub :
    let name (text : String) : Name := Utf8.encode text.toList
    let content : List UInt8 := name "x"
    let tree : FileTree := ⟨.sub (name "d") (.file (name "b") content .empty)
      (.file (name "a") [] .empty), [], none⟩
    let changed := tree.put (.file []) [name "d", name "b"]
    tree.root.WellFormed ∧
      (parseFiles .keepAll tree.lookup [name ".", name "/"]).map (·.1) =
        [name "./a", name "./d/b", name "/a", name "/d/b"] ∧
      (parseFiles .keepAll changed.lookup [name ".", name "/"]).map (·.1) =
        (parseFiles .keepAll tree.lookup [name ".", name "/"]).map (·.1) ∧
      (parseFiles .keepAll changed.lookup [name ".", name "/"])[2]? =
        some (name "/a", parse .keepAll "/a".toList []) := by
  intro name content tree changed
  have htree : tree.root.WellFormed := by decide
  obtain ⟨hpaths, hparses⟩ := (parseFiles_independent .keepAll htree [name ".", name "/"]).2.2.2
    [name "d", name "b"] content [] rfl
  have hplace : (tree.follow (name "/a")).toOption ≠ some [name "d", name "b"] := by
    decide +kernel
  have hfile : (parseFiles .keepAll tree.lookup [name ".", name "/"])[2]? =
      some (name "/a", parse .keepAll "/a".toList []) := by rfl
  exact ⟨htree, by decide +kernel, hpaths,
    hparses 2 _ hfile fun h => hplace (congrArg Except.toOption h)⟩

/-- A file whose path is too long for the system is found, but not parsed. A file whose name is not
that of a text is parsed, but not under its path. -/
theorem parseFiles_long_path :
    (¬ ∀ (policy : Policy) (tree : FileTree) (roots : List Path) (pair : Path × Parse)
      (location : List Name) (content : List UInt8), tree.root.WellFormed →
      pair ∈ parseFiles policy tree.lookup roots → tree.Denotes pair.1 location →
      tree.root.entryAt? location = some (.file content) →
      pair.2 = parse policy pair.1.display (.ofBytes content)) ∧
    ¬ ∀ (policy : Policy) (tree : FileTree) (roots : List Path) (pair : Path × Parse),
      tree.root.WellFormed → pair ∈ parseFiles policy tree.lookup roots →
      pair.1 = .ofText pair.2.subject := by
  constructor
  · intro h
    let name (text : String) : Name := Utf8.encode text.toList
    let directory : Directory := .file (name "f") [] .empty
    let tree : FileTree := ⟨directory, [], none⟩
    let root : Path := Directory.dot :: List.replicate 4094 Directory.slash
    have hplace : tree.Denotes root [] := FileTree.denotes_dot rfl 4094
    have hroot : tree.lookup root = .ok (.directory directory) :=
      FileTree.lookup_dot rfl (by decide)
    let path := Directory.pathBelow (Directory.stemOf root) [name "f"]
    have hdenotes : tree.Denotes path [name "f"] :=
      FileTree.denotes_pathBelow hplace nofun rfl rfl nofun (by decide)
    have herror : Directory.pathError? path = some .nameTooLong := by decide +kernel
    have hpair : (path, .failed (.ofOpen path .nameTooLong)) ∈
        parseFiles .keepAll tree.lookup [root] := by
      refine List.mem_flatMap.2
        ⟨root, List.mem_singleton.2 rfl, List.mem_map.2 ⟨.file path [], ?_, ?_⟩⟩
      · rw [findFiles, hroot]
        exact List.mem_singleton.2 rfl
      · rw [parseFound, herror]
    have hparse := h .keepAll tree [root] _ [name "f"] [] (by decide) hpair hdenotes rfl
    have hresult : (parse .keepAll path.display []).result =
        .ok ⟨path.display, [], 0, none, false⟩ := parse_eq_ok_iff.2 ⟨rfl, rfl⟩
    have hfailed := congrArg Parse.result hparse
    rw [show Source.ofBytes [] = [] from rfl, hresult] at hfailed
    cases hfailed
  · intro h
    let tree : FileTree := ⟨.file [0xFF] [] .empty, [], none⟩
    have hbatch : parseFiles .keepAll tree.lookup [[0xFF]] =
        [([0xFF], parse .keepAll [Utf8.replacement] [])] := by rfl
    have hpath := h .keepAll tree [[0xFF]] _ (by decide) (hbatch ▸ List.mem_singleton.2 rfl)
    rw [subject_parse] at hpath
    exact absurd hpath (by decide +kernel)

end LogicTest
