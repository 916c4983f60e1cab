import CodeForge.Lib.PurePath

/-!
# Symbolic links

A disk says what is at every place, a place being the names on the way from the
root.  There are two ways to follow a path with links in it.

The kernel goes from directory to directory, and gives up after a number of links
(`walk`).  `os.path.realpath` looks at one name after the other, resolves the target
of a link by itself, and remembers what it came to (`realpath`).  When it finds the
link it is just resolving, it gives up too, and leaves the rest of the path as it
is.

If it does not give up, its answer has no link in it (`realpath_linkFree`), and the
kernel goes there (`walk_linkFree`).  If it does, nothing like that holds: the rest is then put
in normal form, where `..` removes the link before it and leaves others that
nobody looked at.
-/

namespace Lib

/-- What is found at a place, without following a link. -/
inductive Node where
  | missing
  /-- Looking there fails for another reason. -/
  | fault
  | dir
  /-- A file, without content if it cannot be read. -/
  | file (content : Option (List UInt8))
  | link (target : PurePath)
deriving DecidableEq

/-- A disk. -/
structure Disk where
  node : List String → Node
  root : node [] = .dir
  /-- No directory can be made there. -/
  refuses : List String → Bool

namespace Disk

variable (D : Disk)

/-! ## The kernel -/

/-- Where a path leads. -/
inductive Walked where
  | found (place : List String)
  | missing
  /-- There are too many links on the way. -/
  | loop
  | fault
deriving DecidableEq

/-- Go on from a directory.  What follows after a link is left to `follow`. -/
def walkFrom (follow : List String → List String → Walked) :
    List String → List String → Walked
  | place, [] => .found place
  | place, name :: rest =>
      match D.node place with
      | .dir =>
          if name = ".." then walkFrom follow place.dropLast rest
          else
            match D.node (place ++ [name]) with
            | .link target => follow (if target.absolute then [] else place) (target.parts ++ rest)
            | _ => walkFrom follow (place ++ [name]) rest
      | .fault => .fault
      | _ => .missing

/-- The way from a directory, with so many links to follow. -/
def walk : Nat → List String → List String → Walked
  | 0 => D.walkFrom fun _ _ => .loop
  | links + 1 => D.walkFrom (walk links)

/-! ## `realpath` -/

/-- The names have a NUL character in them, which no system call takes. -/
def hasNul (names : List String) : Bool := names.any fun c => c.toList.contains '\x00'

/-- Why resolving a path raises. -/
inductive ResolveError where
  /-- `RecursionError` -/
  | recursion
  /-- `RuntimeError("Symlink loop from ...")` -/
  | loop
  /-- `ValueError("embedded null byte")` -/
  | value
deriving DecidableEq

/-- The links met so far, with what they came to, or nothing while they are being resolved. -/
abbrev Seen := List (List String × Option (List String))

/-- What `_joinrealpath` returns, and the links it has seen. -/
structure Joined where
  path : List String
  /-- No link was found again while it was being resolved. -/
  ok : Bool
  seen : Seen

/-- The loop of `_joinrealpath` over the names.  The target of a link is left to `nested`. -/
def joinFrom (nested : List String → PurePath → Seen → Except ResolveError Joined) :
    List String → List String → Seen → Except ResolveError Joined
  | path, [], seen => .ok ⟨path, true, seen⟩
  | path, name :: rest, seen =>
      if name = ".." then joinFrom nested path.dropLast rest seen
      else if name.toList.contains '\x00' then .error .value
      else
        let newpath := path ++ [name]
        match D.node newpath with
        | .link target =>
            match seen.lookup newpath with
            | some (some resolved) => joinFrom nested resolved rest seen
            | some none => .ok ⟨newpath ++ rest, false, seen⟩
            | none => do
                let r ← nested path target ((newpath, none) :: seen)
                if r.ok then joinFrom nested r.path rest ((newpath, some r.path) :: r.seen)
                else return ⟨r.path ++ rest, false, r.seen⟩
        | _ => joinFrom nested newpath rest seen

/-- `_joinrealpath`, with so many calls to go. -/
def joinRealpath : Nat → List String → PurePath → Seen → Except ResolveError Joined
  | 0, _, _, _ => .error .recursion
  | depth + 1, path, p, seen =>
      D.joinFrom (joinRealpath depth) (if p.absolute then [] else path) p.parts seen

/-- The names after `abspath`. -/
def abspath (names : List String) : List String := (PurePath.collapse names).reverse

/-- `Path.resolve` of an absolute path: `realpath`, and a look whether the answer is a loop. -/
def resolve (depth links : Nat) (p : PurePath) : Except ResolveError (List String) := do
  let r ← D.joinRealpath depth [] p []
  let place := abspath r.path
  if hasNul place then throw .value
  else if D.walk links [] place = .loop then throw .loop
  else return place

/-! ## Places without links -/

/-- No name on the way is a link. -/
def LinkFree (place : List String) : Prop := ∀ q, q <+: place → ∀ target, D.node q ≠ .link target

variable {D}

theorem LinkFree.of_prefix {p q : List String} (h : D.LinkFree p) (pre : q <+: p) :
    D.LinkFree q := fun r hr => h r (hr.trans pre)

theorem LinkFree.nil : D.LinkFree [] := by
  intro q hq target here
  rw [List.prefix_nil.1 hq, D.root] at here
  cases here

theorem LinkFree.concat {p : List String} (h : D.LinkFree p) {name : String}
    (plain : ∀ target, D.node (p ++ [name]) ≠ .link target) : D.LinkFree (p ++ [name]) := by
  intro q hq target
  rcases List.prefix_concat_iff.1 hq with rfl | before
  · exact plain target
  · exact h q before target

/-- What `realpath` comes to. -/
structure Real (D : Disk) (place : List String) : Prop where
  linkFree : D.LinkFree place
  normal : ".." ∉ place
  noNul : hasNul place = false

theorem Real.nil : D.Real [] := ⟨.nil, List.not_mem_nil, rfl⟩

theorem Real.dropLast {place : List String} (h : D.Real place) : D.Real place.dropLast where
  linkFree := h.linkFree.of_prefix (List.dropLast_prefix place)
  normal there := h.normal ((List.dropLast_sublist place).subset there)
  noNul := by
    have all := List.any_eq_false.1 h.noNul
    exact List.any_eq_false.2 fun c hc => all c ((List.dropLast_sublist place).subset hc)

theorem Real.concat {place : List String} (h : D.Real place) {name : String} (up : name ≠ "..")
    (nul : name.toList.contains '\x00' = false)
    (plain : ∀ target, D.node (place ++ [name]) ≠ .link target) : D.Real (place ++ [name]) where
  linkFree := h.linkFree.concat plain
  normal there := by
    rcases List.mem_append.1 there with before | last
    · exact h.normal before
    · exact up (List.mem_singleton.1 last).symm
  noNul := by
    rw [hasNul, List.any_append, Bool.or_eq_false_iff]
    exact ⟨h.noNul, by rw [List.any_cons, nul]; rfl⟩

/-- What was remembered is resolved. -/
def SeenReal (D : Disk) (seen : Seen) : Prop :=
  ∀ link resolved, (link, some resolved) ∈ seen → D.Real resolved

theorem mem_of_lookup_eq_some {K V : Type} [BEq K] [LawfulBEq K] {l : List (K × V)} {k : K} {v : V}
    (h : l.lookup k = some v) : (k, v) ∈ l := by
  induction l with
  | nil => cases h
  | cons e l ih =>
      rw [List.lookup_cons] at h
      split at h
      · rename_i same
        cases h
        rw [eq_of_beq same]
        exact List.mem_cons_self
      · exact List.mem_cons_of_mem e (ih h)

theorem joinFrom_real {nested : List String → PurePath → Seen → Except ResolveError Joined}
    (inner : ∀ {path p seen r}, nested path p seen = .ok r → D.Real path → D.SeenReal seen →
      D.SeenReal r.seen ∧ (r.ok = true → D.Real r.path)) {rest : List String} :
    ∀ {path seen r}, D.joinFrom nested path rest seen = .ok r → D.Real path → D.SeenReal seen →
      D.SeenReal r.seen ∧ (r.ok = true → D.Real r.path) := by
  induction rest with
  | nil =>
      intro path seen r h real known
      cases h
      exact ⟨known, fun _ => real⟩
  | cons name rest ih =>
      intro path seen r h real known
      rw [joinFrom] at h
      split at h
      · exact ih h real.dropLast known
      · rename_i up
        split at h
        · cases h
        · rename_i nul
          dsimp only at h
          split at h
          · rename_i target there
            split at h
            · rename_i resolved found
              exact ih h (known _ _ (mem_of_lookup_eq_some found)) known
            · cases h
              exact ⟨known, fun ok => by cases ok⟩
            · have known' : D.SeenReal ((path ++ [name], none) :: seen) := by
                intro link resolved mem
                rcases List.mem_cons.1 mem with first | later
                · cases first
                · exact known link resolved later
              cases ended : nested path target ((path ++ [name], none) :: seen) with
              | error e =>
                  rw [ended] at h
                  cases h
              | ok r' =>
                  rw [ended] at h
                  obtain ⟨knows, comes⟩ := inner ended real known'
                  change (if r'.ok = true then _ else _) = _ at h
                  split at h
                  · rename_i ok
                    refine ih h (comes ok) fun link resolved mem => ?_
                    rcases List.mem_cons.1 mem with first | later
                    · cases first
                      exact comes ok
                    · exact knows link resolved later
                  · cases h
                    exact ⟨knows, fun ok => by cases ok⟩
          · rename_i plain
            exact ih h (real.concat up (by simpa using nul) plain) known

theorem joinRealpath_real {depth : Nat} :
    ∀ {path : List String} {p : PurePath} {seen : Seen} {r : Joined},
      D.joinRealpath depth path p seen = .ok r → D.Real path → D.SeenReal seen →
        D.SeenReal r.seen ∧ (r.ok = true → D.Real r.path) := by
  induction depth with
  | zero =>
      intro path p seen r h
      cases h
  | succ depth ih =>
      intro path p seen r h real known
      refine joinFrom_real ih h ?_ known
      split
      · exact .nil
      · exact real

/-- Where it does not give up, `realpath` comes to a place without links. -/
theorem realpath_linkFree {depth : Nat} {p : PurePath} {r : Joined}
    (h : D.joinRealpath depth [] p [] = .ok r) (ok : r.ok = true) : D.Real r.path :=
  (joinRealpath_real h .nil fun _ _ mem => absurd mem List.not_mem_nil).2 ok

theorem abspath_of_normal {place : List String} (h : ".." ∉ place) : abspath place = place := by
  rw [abspath, PurePath.collapse, PurePath.foldl_push_of_normal h]
  simp

/-- The kernel goes to a place without links, if it gets there at all. -/
theorem walkFrom_linkFree {follow : List String → List String → Walked} {rest : List String} :
    ∀ {place : List String}, D.LinkFree (place ++ rest) → ".." ∉ rest →
      D.walkFrom follow place rest = .found (place ++ rest) ∨
        D.walkFrom follow place rest = .missing ∨
          D.walkFrom follow place rest = .fault ∧ ∃ q, D.node q = .fault := by
  induction rest with
  | nil =>
      intro place _ _
      rw [List.append_nil]
      exact .inl rfl
  | cons name rest ih =>
      intro place free normal
      rw [walkFrom]
      split
      · have down : name ≠ ".." := fun up => normal (up ▸ List.mem_cons_self)
        rw [if_neg down]
        have longer : place ++ name :: rest = place ++ [name] ++ rest := by simp
        split
        · rename_i target there
          refine absurd there (free _ ?_ target)
          rw [longer]
          exact List.prefix_append _ _
        · rw [longer] at free ⊢
          exact ih free fun up => normal (List.mem_cons_of_mem name up)
      · rename_i here
        exact .inr (.inr ⟨rfl, place, here⟩)
      · exact .inr (.inl rfl)

theorem walk_linkFree {place : List String} (h : D.Real place) (links : Nat) :
    D.walk links [] place = .found place ∨ D.walk links [] place = .missing ∨
      D.walk links [] place = .fault ∧ ∃ q, D.node q = .fault := by
  cases links with
  | zero => exact walkFrom_linkFree h.linkFree h.normal
  | succ links => exact walkFrom_linkFree h.linkFree h.normal

theorem joinFrom_of_linkFree
    {nested : List String → PurePath → Seen → Except ResolveError Joined} {rest : List String}
    {seen : Seen} : ∀ {path : List String}, D.LinkFree (path ++ rest) → ".." ∉ rest →
      hasNul rest = false → D.joinFrom nested path rest seen = .ok ⟨path ++ rest, true, seen⟩ := by
  induction rest with
  | nil =>
      intro path _ _ _
      rw [List.append_nil]
      rfl
  | cons name rest ih =>
      intro path free normal noNul
      obtain ⟨nul, noNul⟩ := Bool.or_eq_false_iff.1 noNul
      have down : name ≠ ".." := fun up => normal (up ▸ List.mem_cons_self)
      have longer : path ++ name :: rest = path ++ [name] ++ rest := by simp
      rw [joinFrom, if_neg down, if_neg (by simpa using nul)]
      dsimp only
      split
      · rename_i target there
        refine absurd there (free _ ?_ target)
        rw [longer]
        exact List.prefix_append _ _
      · rw [longer] at free ⊢
        exact ih free (fun up => normal (List.mem_cons_of_mem name up)) noNul

/-- A name with a NUL character is not looked up. -/
theorem joinFrom_of_nul
    {nested : List String → PurePath → Seen → Except ResolveError Joined} {rest : List String}
    {seen : Seen} : ∀ {path : List String}, D.LinkFree (path ++ rest) → ".." ∉ rest →
      hasNul rest = true → D.joinFrom nested path rest seen = .error .value := by
  induction rest with
  | nil =>
      intro path _ _ nul
      cases nul
  | cons name rest ih =>
      intro path free normal nul
      have down : name ≠ ".." := fun up => normal (up ▸ List.mem_cons_self)
      have longer : path ++ name :: rest = path ++ [name] ++ rest := by simp
      rw [joinFrom, if_neg down]
      cases here : name.toList.contains '\x00' with
      | true => rw [if_pos rfl]
      | false =>
          rw [if_neg Bool.false_ne_true]
          dsimp only
          have later : hasNul rest = true := by
            rw [hasNul, List.any_cons, here] at nul
            exact nul
          split
          · rename_i target there
            refine absurd there (free _ ?_ target)
            rw [longer]
            exact List.prefix_append _ _
          · rw [longer] at free
            exact ih free (fun up => normal (List.mem_cons_of_mem name up)) later

/-- A place without links resolves to itself. -/
theorem resolve_of_real {p : PurePath} (h : D.Real p.parts) (depth links : Nat) :
    D.resolve (depth + 1) links p = .ok p.parts := by
  have start : (if p.absolute then [] else ([] : List String)) = [] := by
    split
    · rfl
    · rfl
  have joined : D.joinRealpath (depth + 1) [] p [] = .ok ⟨p.parts, true, []⟩ := by
    rw [joinRealpath, start]
    exact joinFrom_of_linkFree h.linkFree h.normal h.noNul
  have there : D.walk links [] p.parts ≠ .loop := by
    rcases walk_linkFree h links with e | e | ⟨e, -⟩ <;>
    · rw [e]
      exact fun same => by cases same
  rw [resolve, joined]
  change (if hasNul (abspath p.parts) then _ else _) = _
  rw [abspath_of_normal h.normal, h.noNul, if_neg Bool.false_ne_true, if_neg there]
  rfl

theorem resolve_of_nul {p : PurePath} (free : D.LinkFree p.parts) (normal : ".." ∉ p.parts)
    (nul : hasNul p.parts = true) (depth links : Nat) :
    D.resolve (depth + 1) links p = .error .value := by
  have start : (if p.absolute then [] else ([] : List String)) = [] := by
    split
    · rfl
    · rfl
  have joined : D.joinRealpath (depth + 1) [] p [] = .error .value := by
    rw [joinRealpath, start]
    exact joinFrom_of_nul free normal nul
  rw [resolve, joined]
  rfl

/-! ## Making directories -/

/-- `is_dir` -/
def isDir (D : Disk) (links : Nat) (path : List String) : Bool :=
  match D.walk links [] path with
  | .found place => D.node place = .dir
  | _ => false

/-- A directory is made. -/
def put (D : Disk) (place : List String) (ne : place ≠ []) : Disk where
  node := Function.update D.node place .dir
  root := by rw [Function.update_of_ne (Ne.symm ne), D.root]
  refuses := D.refuses

@[simp] theorem node_put (D : Disk) {place : List String} (ne : place ≠ []) (q : List String) :
    (D.put place ne).node q = if q = place then .dir else D.node q :=
  Function.update_apply ..

/-- `mkdir(exist_ok=True)` -/
def mkdir (links : Nat) (D : Disk) (path : List String) : Option Disk :=
  if D.isDir links path then some D
  else
    match path.getLast?, D.walk links [] path.dropLast with
    | some name, .found parent =>
        if D.node parent = .dir ∧ D.node (parent ++ [name]) = .missing ∧
            D.refuses (parent ++ [name]) = false then
          some (D.put (parent ++ [name]) (by simp))
        else none
    | _, _ => none

/-- `mkdir(parents=True, exist_ok=True)` -/
def mkdirs (links : Nat) (D : Disk) (path : List String) : Option Disk :=
  path.inits.foldlM (mkdir links) D

/-- Every link was there before. -/
def NoNewLinks (D D' : Disk) : Prop :=
  ∀ place target, D'.node place = .link target → D.node place = .link target

theorem NoNewLinks.trans {D D' D'' : Disk} (h : NoNewLinks D D') (h' : NoNewLinks D' D'') :
    NoNewLinks D D'' := fun place target there => h place target (h' place target there)

theorem NoNewLinks.real {D D' : Disk} (h : NoNewLinks D D') {place : List String}
    (real : D.Real place) : D'.Real place where
  linkFree q hq target there := real.linkFree q hq target (h q target there)
  normal := real.normal
  noNul := real.noNul

theorem mkdir_links {links : Nat} {D D' : Disk} {path : List String}
    (h : mkdir links D path = some D') : NoNewLinks D D' := by
  intro place target there
  unfold mkdir at h
  split at h
  · cases h
    exact there
  · split at h
    · split at h
      · cases h
        rw [node_put] at there
        split at there
        · cases there
        · exact there
      · cases h
    · cases h

theorem mkdirs_links {links : Nat} {D D' : Disk} {path : List String}
    (h : mkdirs links D path = some D') : NoNewLinks D D' := by
  unfold mkdirs at h
  generalize path.inits = paths at h
  induction paths generalizing D with
  | nil =>
      cases h
      exact fun _ _ there => there
  | cons q paths ih =>
      rw [List.foldlM_cons] at h
      obtain ⟨D₁, first, rest⟩ := Option.bind_eq_some_iff.1 h
      exact (mkdir_links first).trans (ih rest)

end Disk

end Lib
