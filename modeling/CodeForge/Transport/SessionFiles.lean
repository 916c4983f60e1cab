import CodeForge.Lib.Links
import CodeForge.Lib.Utf8
import CodeForge.Transport.Binding

/-!
# Reading the files of a session

A client names a file by a path relative to the project.  The path is refused if it is spelled
as one into `.forge`, where the Runtime keeps its metadata, and what it resolves to
is refused if it is not in the project.

The two checks are of different things.  A link of the project leads into
`.forge` under another name, and the project contains where it leads.  A path that
runs into a loop of links is resolved by half, and the check is then made of a path
with links in it, which the kernel follows wherever they lead.  And some
failures are no answer to a request at all.  Otherwise a file that is read is one of
the project (`readSessionFile_contained_iff`).
-/

namespace CodeForge

open Lib

/-! ## Reading -/

/-- What reading files goes by. -/
structure FileHost where
  sha256 : List UInt8 → String
  /-- How deep calls may be nested. -/
  depth : Nat
  /-- How many links the kernel follows. -/
  links : Nat

/-- What is raised on the way. -/
inductive FileError where
  | domain (e : StoreError)
  | resolve (e : Disk.ResolveError)
  /-- `OSError` -/
  | os
deriving DecidableEq

/-- The response has the code `INVALID_REQUEST`.  `do_GET` gives it to a `ValueError` too. -/
def FileError.isInvalidRequest : FileError → Bool
  | .domain (.domain .invalidRequest _) => true
  | .resolve .value => true
  | _ => false

/-- What `read_text` returns. -/
structure FileText where
  content : String
  digest : String
  truncated : Bool

namespace FileHost

variable (H : FileHost)

/-- `WorkspaceStore.internal_dirname` -/
def internalDirname : String := ".forge"

/-- `ensure_workspace` of a project.  The disk is none where a directory cannot be made. -/
def ensureWorkspace (D : Disk) (project : PurePath) : Option Disk := do
  let D ← D.mkdirs H.links project.parts
  let D ← D.mkdirs H.links (project.parts ++ [internalDirname, "revisions"])
  D.mkdirs H.links (project.parts ++ [internalDirname, "manifests"])

/-- `_safe_relative` -/
def safeRelative (D : Disk) (root : PurePath) (relativePath : String) :
    Except FileError (List String) := do
  let candidate ← (D.resolve H.depth H.links (root.join (.parse relativePath))).mapError .resolve
  let rootResolved ← (D.resolve H.depth H.links root).mapError .resolve
  if ¬ rootResolved <+: candidate then
    throw (.domain (.domain .invalidRequest "Path escapes workspace"))
  return candidate

/-- The bytes of `target.open("rb")`, once it `is_file`, and the place they are at. -/
def openFile (D : Disk) (target : List String) : Except FileError (List String × List UInt8) :=
  match D.walk H.links [] target with
  | .found place =>
      match D.node place with
      | .file (some data) => .ok (place, data)
      | .file none | .fault => .error .os
      | _ => .error (.domain (.domain .invalidRequest "File not found"))
  | .missing | .loop => .error (.domain (.domain .invalidRequest "File not found"))
  | .fault => .error .os

/-- The path is spelled as one of the metadata. -/
def isInternal (relativePath : String) : Bool :=
  relativePath = internalDirname ||
    (internalDirname ++ "/").toList.isPrefixOf relativePath.toList

/-- `read_text` as far as to the bytes of the file, and the place they are at. -/
def openText (D : Disk) (project : PurePath) (relativePath : String) :
    Except FileError (List String × List UInt8) := do
  if isInternal relativePath then
    throw (.domain (.domain .invalidRequest "Runtime metadata is not readable"))
  match H.ensureWorkspace D project with
  | none => throw .os
  | some D => do
      let target ← H.safeRelative D project relativePath
      H.openFile D target

/-- What `read_text` makes of the bytes. -/
def textOf (data : List UInt8) (limit : Nat) : FileText where
  content := String.ofList (Utf8.decode false (data.take limit)).1
  digest := H.sha256 data
  truncated := decide (limit < data.length)

/-- `read_text` -/
def readText (D : Disk) (project : PurePath) (relativePath : String) (limit : Nat) :
    Except FileError FileText := do
  let (_, data) ← H.openText D project relativePath
  return H.textOf data limit

/-- `_read_session_file` of a session with a project: the path it sends back and the text. -/
def readSessionFile (D : Disk) (project : PurePath) (path : String) :
    Except FileError (String × FileText) := do
  let relative ← (relativePath (.str path) "path").mapError .domain
  let text ← H.readText D project relative (1024 * 1024)
  return (relative, text)

/-! ## Containment -/

/-- The place is in the project, and not in the directory with the metadata. -/
def InProject (project : PurePath) (place : List String) : Prop :=
  project.parts <+: place ∧ ¬ project.parts ++ [internalDirname] <+: place

instance (project : PurePath) (place : List String) : Decidable (InProject project place) :=
  inferInstanceAs (Decidable (_ ∧ ¬ _))

/-- The request is answered with `INVALID_REQUEST`, or with the text of a file in the project. -/
def Contained (D : Disk) (project : PurePath) (path : String) : Prop :=
  (∃ e, H.readSessionFile D project path = .error e ∧ e.isInvalidRequest = true) ∨
    ∃ relative place data, relativePath (.str path) "path" = .ok relative ∧
      H.openText D project relative = .ok (place, data) ∧ InProject project place ∧
      H.readSessionFile D project path = .ok (relative, H.textOf data (1024 * 1024))

/-- What is found at a target is no file, or one of the project that can be read. -/
def Leads (D : Disk) (project : PurePath) (target : List String) : Prop :=
  match D.walk H.links [] target with
  | .found place =>
      match D.node place with
      | .file (some _) => InProject project place
      | .file none | .fault => False
      | _ => True
  | .missing | .loop => True
  | .fault => False

/-- A path that gets past the checks of its spelling resolves, and to a place outside the
project or to one that is no file in `.forge`. -/
def Safe (D : Disk) (project : PurePath) (path : String) : Prop :=
  ∀ relative, relativePath (.str path) "path" = .ok relative → isInternal relative = false →
    ∃ D', H.ensureWorkspace D project = some D' ∧
      match D'.resolve H.depth H.links (project.join (.parse relative)) with
      | .ok target => project.parts <+: target → H.Leads D' project target
      | .error e => e = .value

variable {H : FileHost} {D D' : Disk} {project : PurePath} {path relative : String}

/-- Of a path that is not refused, what `read_text` comes to decides. -/
theorem contained_iff (accepted : relativePath (.str path) "path" = .ok relative) :
    H.Contained D project path ↔
      match H.openText D project relative with
      | .ok (place, _) => InProject project place
      | .error e => e.isInvalidRequest = true := by
  have read : H.readSessionFile D project path =
      (H.openText D project relative).map fun found =>
        (relative, H.textOf found.2 (1024 * 1024)) := by
    rw [readSessionFile, accepted]
    change (H.readText D project relative (1024 * 1024) >>= _) = _
    rw [readText]
    cases H.openText D project relative with
    | error e => rfl
    | ok found => rfl
  rw [Contained, read]
  cases opened : H.openText D project relative with
  | error e =>
      constructor
      · rintro (⟨e', same, invalid⟩ | ⟨_, _, _, again, open_, -⟩)
        · cases same
          exact invalid
        · cases accepted.symm.trans again
          rw [opened] at open_
          cases open_
      · intro invalid
        exact .inl ⟨e, rfl, invalid⟩
  | ok found =>
      obtain ⟨place, data⟩ := found
      constructor
      · rintro (⟨e', same, -⟩ | ⟨_, _, _, again, open_, inside, -⟩)
        · cases same
        · cases accepted.symm.trans again
          rw [opened] at open_
          cases open_
          exact inside
      · intro inside
        exact .inr ⟨relative, place, data, accepted, opened, inside, rfl⟩

theorem ensureWorkspace_links (h : H.ensureWorkspace D project = some D') :
    Disk.NoNewLinks D D' := by
  obtain ⟨D₁, first, h⟩ := Option.bind_eq_some_iff.1 h
  obtain ⟨D₂, second, third⟩ := Option.bind_eq_some_iff.1 h
  exact ((Disk.mkdirs_links first).trans (Disk.mkdirs_links second)).trans
    (Disk.mkdirs_links third)

/-- What is opened at a place without links is what is there. -/
theorem leads_of_real {target : List String} (real : D.Real target)
    (readable : ∀ place, D.node place ≠ .fault ∧ D.node place ≠ .file none)
    (inside : InProject project target) : H.Leads D project target := by
  unfold Leads
  rcases Disk.walk_linkFree real H.links with there | there | ⟨-, place, fault⟩
  · rw [there]
    obtain ⟨fault, unread⟩ := readable target
    dsimp only
    cases found : D.node target with
    | file content =>
        cases content with
        | none => exact absurd found unread
        | some data => exact inside
    | fault => exact absurd found fault
    | missing | dir | link target => trivial
  · rw [there]
    trivial
  · exact absurd fault (readable place).1

/-- A path with `.forge` for its first name is spelled as one of the metadata. -/
theorem isInternal_render {p : PurePath} {rest : List String} (relative : p.absolute = false)
    (first : p.parts = internalDirname :: rest) : isInternal p.render = true := by
  have text : p.render = String.ofList (['/'].intercalate (p.parts.map String.toList)) := by
    rw [PurePath.render, relative, if_neg Bool.false_ne_true, if_neg]
    rw [first]
    exact List.cons_ne_nil _ _
  rw [isInternal, text, first, String.toList_ofList, Bool.or_eq_true_iff]
  cases rest with
  | nil => exact .inl (decide_eq_true rfl)
  | cons name rest =>
      refine .inr (List.isPrefixOf_iff_prefix.2 ?_)
      rw [List.map_cons, List.map_cons, List.intercalate_cons_cons, String.toList_append]
      exact List.prefix_append _ _

/-- What a path that is not refused is made of. -/
theorem relativePath_ok (h : relativePath (.str path) "path" = .ok relative) :
    ∃ p : PurePath, relative = p.render ∧ p.absolute = false ∧ p.parts ≠ [] ∧ ".." ∉ p.parts := by
  unfold relativePath at h
  dsimp only at h
  split at h
  · cases h
  · split at h
    · cases h
    · rename_i plain
      split at h
      · cases h
      · rename_i names
        cases h
        exact ⟨_, rfl, by simpa using plain, fun none => names (.inl none),
          fun up => names (.inr up)⟩

/-- Where the project has no links, and what is there can be read, the check of the spelling
is enough. -/
theorem safe_of_linkFree (nested : H.depth ≠ 0) (real : D.Real project.parts)
    (made : H.ensureWorkspace D project = some D')
    (plain : ∀ place, project.parts <+: place → ∀ target, D.node place ≠ .link target)
    (readable : ∀ place, D'.node place ≠ .fault ∧ D'.node place ≠ .file none) :
    H.Safe D project path := by
  intro relative accepted spelled
  obtain ⟨p, rfl, down, some_name, normal⟩ := relativePath_ok accepted
  obtain ⟨depth, hdepth⟩ := Nat.exists_eq_succ_of_ne_zero nested
  have links := ensureWorkspace_links made
  have names : (project.join (.parse p.render)).parts = project.parts ++ p.parts := by
    rw [PurePath.parse_render, (PurePath.join_parts down).2]
  have free : D'.LinkFree (project.join (.parse p.render)).parts := by
    rw [names]
    intro q hq target there
    rcases List.prefix_or_prefix_of_prefix hq (List.prefix_append _ _) with above | below
    · exact real.linkFree q above target (links q target there)
    · exact plain q below target (links q target there)
  have straight : ".." ∉ (project.join (.parse p.render)).parts := by
    rw [names, List.mem_append]
    exact fun up => up.elim real.normal normal
  refine ⟨D', made, ?_⟩
  rw [hdepth]
  cases nul : Disk.hasNul (project.join (.parse p.render)).parts with
  | true => rw [Disk.resolve_of_nul free straight nul]
  | false =>
      rw [Disk.resolve_of_real ⟨free, straight, nul⟩]
      refine fun inside => leads_of_real ⟨free, straight, nul⟩ readable ⟨inside, ?_⟩
      rw [names, List.prefix_append_right_inj]
      intro metadata
      cases parts : p.parts with
      | nil => exact some_name parts
      | cons name rest =>
          rw [parts] at metadata
          have first := (List.cons_prefix_cons.1 metadata).1
          rw [← first] at parts
          rw [isInternal_render down parts] at spelled
          cases spelled

/-! ## Links of a project -/

/-- A server on a machine that follows as many links as Linux does. -/
def plain : FileHost where
  sha256 := Sha256.hexdigest
  depth := 1000
  links := 40

/-- A disk with some links below `/p`, and files in `.forge`, in the project and outside. -/
def linkedDisk (links : List (List String × String)) : Disk where
  node place :=
    if place = ["p", ".forge", "manifests", "current.json"] then .file (some (utf8 "metadata"))
    else if place = ["p", "f"] then .file (some (utf8 "text"))
    else if place = ["q", "f"] then .file (some (utf8 "secret"))
    else if place ∈ [[], ["p"], ["q"], ["p", ".forge"], ["p", ".forge", "manifests"],
        ["p", ".forge", "revisions"]] then .dir
    else
      match links.lookup place with
      | some target => .link (.parse target)
      | none => .missing
  root := rfl
  refuses _ := false

theorem linkedDisk_real (links : List (List String × String)) :
    (linkedDisk links).Real ["p"] where
  linkFree q hq target there := by
    rcases List.prefix_concat_iff.1 (show q <+: [] ++ ["p"] from hq) with rfl | before
    · cases there
    · rw [List.prefix_nil.1 before] at there
      cases there
  normal := by decide
  noNul := by decide

/-- What is read is not in the project. -/
theorem not_contained {place : List String} {data : List UInt8}
    (accepted : relativePath (.str path) "path" = .ok relative)
    (opened : H.openText D project relative = .ok (place, data))
    (outside : ¬ InProject project place) : ¬ H.Contained D project path := by
  rw [contained_iff accepted, opened]
  exact outside

/-- A path that runs into a loop of links leads out of the project. -/
theorem readSessionFile_escapes :
    let D := linkedDisk [(["p", "a"], "loop/../out/f"), (["p", "loop"], "loop"), (["p", "out"], "/q")]
    D.Real ["p"] ∧ plain.openText D (.parse "/p") "a" = .ok (["q", "f"], utf8 "secret") ∧
      ¬ plain.Contained D (.parse "/p") "a" := by
  have opened : plain.openText (linkedDisk [(["p", "a"], "loop/../out/f"), (["p", "loop"], "loop"),
      (["p", "out"], "/q")]) (.parse "/p") "a" = .ok (["q", "f"], utf8 "secret") := by
    decide +kernel
  refine ⟨linkedDisk_real _, opened, not_contained (by decide +kernel) opened ?_⟩
  decide +kernel

end FileHost

end CodeForge
