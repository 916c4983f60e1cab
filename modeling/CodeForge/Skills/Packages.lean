import CodeForge.Contracts
import CodeForge.Lib.Fallible
import CodeForge.Lib.JsonText
import CodeForge.Skills.Digest
import CodeForge.Workspace.Manifest

/-!
# Skill packages

A directory with a `SKILL.md` is a package.  The file starts with a
frontmatter, lines with a key and a value between two fences, which says the
name and the version of the skill and what other skills it requires.

The bundle of a package is everything in its directory
(`mem_bundleAt`).
-/

namespace CodeForge.Skills

open Lib
open Files (Name mapM_text_inj)

/-! ## Frontmatter -/

/-- What is the interpreter's: how numbers print, and `str` of a value that is no text. -/
structure Python where
  numerals : Json.Numerals
  str : Json → String

/-- A text as it is read from a file: every newline is `\n`. -/
def universalNewlines : List Char → List Char
  | [] => []
  | '\r' :: '\n' :: cs => '\n' :: universalNewlines cs
  | '\r' :: cs => '\n' :: universalNewlines cs
  | c :: cs => c :: universalNewlines cs

/-- Where `splitlines` ends a line. -/
def isBreak (c : Char) : Bool :=
  let n := c.toNat
  (10 ≤ n && n ≤ 13) || (28 ≤ n && n ≤ 30) || n = 0x85 || n = 0x2028 || n = 0x2029

/-- Remove such characters at both ends. -/
def strip (drop : Char → Bool) (cs : List Char) : List Char :=
  ((cs.dropWhile drop).reverse.dropWhile drop).reverse

/-- The text up to the first line that starts with a fence. -/
def untilFence : List Char → Option (List Char)
  | [] => none
  | c :: cs =>
      if "\n---".toList.isPrefixOf (c :: cs) then some [] else (untilFence cs).map (c :: ·)

/-- What `_FRONTMATTER` finds.  The blanks after the first fence are taken as far as they can
be. -/
def frontmatter : List Char → Option (List Char)
  | '-' :: '-' :: '-' :: cs =>
      (List.range (cs.takeWhile isSpace).length).reverse.findSome? fun n =>
        if cs[n]? = some '\n' then untilFence (cs.drop (n + 1)) else none
  | _ => none

/-- The key and the value of a line. -/
def field (line : List Char) : Option (String × String) :=
  if ':' ∈ line then
    some (String.ofList (strip isSpace (line.takeWhile (· ≠ ':'))),
      String.ofList (strip (fun c => c = '\'' || c = '"')
        (strip isSpace (line.dropWhile (· ≠ ':')).tail)))
  else none

/-- `_parse_frontmatter`, without reading the value of `requires`. -/
def parseFrontmatter (text : List Char) : List (String × String) :=
  match frontmatter text with
  | none => []
  | some body => (body.splitOnP isBreak).filterMap field

/-- The last value of a key. -/
def valueOf (fields : List (String × String)) (key : String) : Option String :=
  fields.reverse.lookup key

/-- `str(item)` -/
def Python.text (py : Python) : Json → String
  | .str s => s
  | j => py.str j

/-- The texts that are left when they are stripped. -/
def stripped (texts : List String) : List String :=
  (texts.map fun s => String.ofList (strip isSpace s.toList)).filter (· ≠ "")

/-- `_parse_requires`.  There is no answer where half of a surrogate pair is read. -/
def parseRequires (py : Python) (value : String) : Option (List String) :=
  if value.toList.head? = some '[' then
    match Json.loads py.numerals value with
    | .value (.arr items) => some (stripped (items.map py.text))
    | .value _ | .malformed | .undecodable => some []
    | .surrogate => none
  else some (stripped ((value.toList.splitOn ',').map String.ofList))

/-! ## Bundles -/

variable {t : FileTree Name} {dir : List Name} {m : Bundle}

/-- The files below a directory, by the paths from there. -/
def below (t : FileTree Name) (dir : List Name) : List (List Name × List UInt8) :=
  t.files.filterMap fun f => if dir <+: f.1 then some (f.1.drop dir.length, f.2) else none

/-- The path of a file, if it can be hashed. -/
def filePath (p : List Name) : Option FilePath :=
  match p.mapM Name.text? with
  | none => none
  | some names =>
      if h : names ≠ [] ∧ ∀ n ∈ names, IsName n then some ⟨names, h.1, h.2⟩ else none

theorem mem_below {p : List Name} {c : List UInt8} :
    (p, c) ∈ below t dir ↔ t.fileAt (dir ++ p) = some c := by
  rw [below, List.mem_filterMap]
  constructor
  · rintro ⟨f, hf, there⟩
    split at there
    next pre =>
      obtain ⟨q, c'⟩ := f
      obtain ⟨s, rfl⟩ := pre
      cases there
      dsimp only
      rw [List.drop_left]
      exact FileTree.mem_files.1 hf
    · cases there
  · intro file
    refine ⟨_, FileTree.mem_files.2 file, ?_⟩
    rw [if_pos (List.prefix_append _ _), List.drop_left]

/-- No file is above another. -/
theorem below_apart : (below t dir).Pairwise fun f g => ¬f.1 <+: g.1 ∧ ¬g.1 <+: f.1 := by
  have files : ∀ p q c c', t.fileAt p = some c → t.fileAt q = some c' → p ≠ q → ¬p <+: q := by
    intro p q c c' hp hq ne pre
    have there : t.get q ≠ none := by
      rw [FileTree.fileAt_eq_some.1 hq]
      exact Option.some_ne_none _
    rw [FileTree.fileAt, FileTree.get_prefix there pre ne] at hp
    cases hp
  have distinct : t.files.Pairwise fun f g => f.1 ≠ g.1 := List.pairwise_map.1 t.files_nodup
  rw [below, List.pairwise_filterMap]
  refine distinct.imp_of_mem ?_
  rintro ⟨p, c⟩ ⟨q, c'⟩ hp hq ne f hf g hg
  split at hf
  next pre =>
    split at hg
    next pre' =>
      obtain ⟨s, rfl⟩ := pre
      obtain ⟨s', rfl⟩ := pre'
      cases hf
      cases hg
      rw [List.drop_left, List.drop_left]
      have hp := FileTree.mem_files.1 hp
      have hq := FileTree.mem_files.1 hq
      exact ⟨fun above => files _ _ c c' hp hq ne ((List.prefix_append_right_inj dir).2 above),
        fun above => files _ _ c' c hq hp (Ne.symm ne)
          ((List.prefix_append_right_inj dir).2 above)⟩
    · cases hg
  · cases hf

theorem filePath_eq_some {p : List Name} {fp : FilePath} (h : filePath p = some fp) :
    p.mapM Name.text? = some fp.names := by
  unfold filePath at h
  split at h
  · cases h
  next names named =>
    split at h
    · cases h
      exact named
    · cases h

/-- A path is above another where its text is. -/
theorem mapM_text_below {p q : List Name} {names names' : List String}
    (hp : p.mapM Name.text? = some names) (hq : q.mapM Name.text? = some names')
    (pre : names <+: names') : p <+: q := by
  obtain ⟨rest, rfl⟩ := pre
  have front := List.forall₂_take_append _ _ _ (mapM_eq_some.1 hq)
  rw [mapM_text_inj hp (mapM_eq_some.2 front)]
  exact List.take_prefix _ _

theorem filePath_apart {p q : List Name} {fp fq : FilePath} (hp : filePath p = some fp)
    (hq : filePath q = some fq) (h : ¬p <+: q ∧ ¬q <+: p) : fp.Apart fq :=
  ⟨fun pre => h.1 (mapM_text_below (filePath_eq_some hp) (filePath_eq_some hq) pre),
    fun pre => h.2 (mapM_text_below (filePath_eq_some hq) (filePath_eq_some hp) pre)⟩

/-- The files below a directory by their texts, in some order. -/
def named (t : FileTree Name) (dir : List Name) : Option (List (FilePath × List UInt8)) :=
  (below t dir).mapM fun f => (filePath f.1).map (·, f.2)

theorem named_apart {files : List (FilePath × List UInt8)} (h : named t dir = some files) :
    files.Pairwise fun f g => f.1.Apart g.1 := by
  refine pairwise_mapM h (fun hf hg apart => ?_) below_apart
  obtain ⟨fp, path, rfl⟩ := Option.map_eq_some_iff.1 hf
  obtain ⟨fq, path', rfl⟩ := Option.map_eq_some_iff.1 hg
  exact filePath_apart path path' apart

theorem FilePath.Apart.symm {p q : FilePath} (h : p.Apart q) : q.Apart p := ⟨h.2, h.1⟩

theorem FilePath.Apart.ne {p q : FilePath} (h : p.Apart q) : p.names ≠ q.names :=
  fun same => h.1 (same ▸ List.prefix_refl _)

/-- Files that are apart, sorted. -/
def Bundle.ofFiles (files : List (FilePath × List UInt8))
    (apart : files.Pairwise fun f g => f.1.Apart g.1) : Bundle :=
  have perm := List.perm_insertionSort
    (fun f g : FilePath × List UInt8 => f.1.names ≤ g.1.names) files
  have apart' := (perm.pairwise_iff fun h => FilePath.Apart.symm h).2 apart
  { files := files.insertionSort fun f g => f.1.names ≤ g.1.names
    sorted := by
      have ordered : (files.insertionSort fun f g => f.1.names ≤ g.1.names).Pairwise
          fun f g => f.1.names ≤ g.1.names := List.pairwise_insertionSort _ files
      exact (ordered.and apart').imp fun both => lt_of_le_of_ne both.1 both.2.ne
    apart := apart' }

/-- Everything in a directory, as it is hashed.  There is no bundle where a name cannot be
encoded. -/
def bundleAt (t : FileTree Name) (dir : List Name) : Option Bundle :=
  match h : named t dir with
  | none => none
  | some files => some (.ofFiles files (named_apart h))

/-- The bundle of a directory is everything in it. -/
theorem mem_bundleAt (h : bundleAt t dir = some m) {fp : FilePath} {c : List UInt8} :
    (fp, c) ∈ m.files ↔ ∃ p, filePath p = some fp ∧ t.fileAt (dir ++ p) = some c := by
  unfold bundleAt at h
  split at h
  · cases h
  next files found =>
    cases h
    change (fp, c) ∈ files.insertionSort _ ↔ _
    rw [List.mem_insertionSort, mem_of_mapM found]
    constructor
    · rintro ⟨⟨p, c'⟩, there, same⟩
      obtain ⟨fq, path, same⟩ := Option.map_eq_some_iff.1 same
      cases same
      exact ⟨p, path, mem_below.1 there⟩
    · rintro ⟨p, path, file⟩
      exact ⟨(p, c), mem_below.2 file, by rw [path]; rfl⟩

/-! ## Packages -/

/-- What is raised. -/
inductive ResolveError where
  | domain (code : ErrorCode) (message : String)
  /-- A `SKILL.md` is no UTF-8. -/
  | undecodable
  /-- A name of a file or directory cannot be encoded, or a text has half of a surrogate pair. -/
  | unencodable
  /-- Calls are nested too deep. -/
  | recursion
deriving DecidableEq, Repr

/-- What `_read_skill` reads, with the directory as the digest sees it. -/
structure Package where
  name : String
  version : String
  description : String
  requires : List String
  bundle : Bundle
deriving DecidableEq

/-- `meta["digest"]` -/
def Package.digest (sha256 : List UInt8 → String) (p : Package) : String :=
  bundleDigest sha256 p.bundle

def skillMd : Name := .text "SKILL.md" (by decide)

/-- Succeed with a value, or raise. -/
def require {α : Type} (value : Option α) (e : ResolveError) : Except ResolveError α :=
  match value with
  | some a => .ok a
  | none => .error e

/-- `_read_skill`: the directory, and its name as the path it was found by has it. -/
def readSkill (py : Python) (t : FileTree Name) (dir : List Name) (dirName : Option String) :
    Except ResolveError Package := do
  let shown := dirName.getD ""
  let bytes ← require (t.fileAt (dir ++ [skillMd]))
    (.domain .skillNotFound s!"Missing SKILL.md for {shown}")
  let text ← require (decodeUtf8 bytes) .undecodable
  let fields := parseFrontmatter (universalNewlines text.toList)
  let requires ← require ((valueOf fields "requires").elim (some []) (parseRequires py))
    .unencodable
  let name ← require ((valueOf fields "name").or dirName) .unencodable
  let version := (valueOf fields "version").getD ""
  let description := (valueOf fields "description").getD ""
  if name = "" ∨ version = "" then
    throw (.domain .skillIncompatible s!"Skill {shown} requires name/version frontmatter")
  else do
    let bundle ← require (bundleAt t dir) .unencodable
    return { name, version, description, requires, bundle }

theorem require_eq_ok {α : Type} {value : Option α} {e : ResolveError} {a : α} :
    require value e = .ok a ↔ value = some a := by
  cases value with
  | none => exact iff_of_false (fun h => by cases h) (fun h => by cases h)
  | some b =>
      exact ⟨fun h => congrArg some (Except.ok.inj h), fun h => congrArg _ (Option.some.inj h)⟩

/-- What a text requires. -/
def requiresOf (py : Python) (text : String) : Option (List String) :=
  (valueOf (parseFrontmatter (universalNewlines text.toList)) "requires").elim (some [])
    (parseRequires py)

/-- A package has the bundle of its directory, a name and a version, and requires what its
`SKILL.md` says. -/
theorem readSkill_ok {py : Python} {name : Option String} {p : Package}
    (h : readSkill py t dir name = .ok p) :
    bundleAt t dir = some p.bundle ∧ p.name ≠ "" ∧ p.version ≠ "" ∧
      ∃ bytes, t.fileAt (dir ++ [skillMd]) = some bytes ∧
        (decodeUtf8 bytes).bind (requiresOf py) = some p.requires := by
  obtain ⟨bytes, file, h⟩ := except_bind_eq_ok.1 h
  obtain ⟨text, decoded, h⟩ := except_bind_eq_ok.1 h
  obtain ⟨requires, required, h⟩ := except_bind_eq_ok.1 h
  obtain ⟨name', -, h⟩ := except_bind_eq_ok.1 h
  dsimp only at h
  split at h
  · cases h
  next full =>
    obtain ⟨bundle, found, h⟩ := except_bind_eq_ok.1 h
    cases h
    obtain ⟨named, versioned⟩ := not_or.1 full
    refine ⟨require_eq_ok.1 found, named, versioned, bytes, require_eq_ok.1 file, ?_⟩
    rw [require_eq_ok.1 decoded]
    exact require_eq_ok.1 required

end CodeForge.Skills
