import CodeForge.Workspace.Publishing

/-!
# Evidence of revisions

The row of a revision refers to a manifest and to a tree.  For a project both
have places of their own, which no later commit writes to.  For a workspace
without a project they are the published tree and the manifest in it, and every
commit of the workspace writes there; the copy that is made of every revision is
not what the row refers to.

So a revision stays verifiable as long as all commits of its workspace are of
the same files (`evidence_kept`).  What a later commit has not overwritten is
remembered beside the world, in `standingAfter`.
-/

namespace CodeForge

open Lib Files

variable (S : Setting)

/-! ## What is claimed of a revision -/

/-- The manifest that a commit names has its digest, and lists the tree that it names. -/
def World.Evidence (w : World) (c : Returned) : Prop :=
  ∃ file tree, w.manifestFile c = some file ∧ S.deployment.sha256 file = c.manifestDigest ∧
    w.storedTree c = some tree ∧ Lists S.deployment.sha256 S.numerals file tree

/-- Nothing of a project below its top lies in or is called `.forge`. -/
def Undivided (project : FileTree Name) : Prop :=
  ∀ p c, project.fileAt p = some c → included p = true → forge ∉ p

instance (project : FileTree Name) : Decidable (Undivided project) :=
  decidable_of_iff (∀ f ∈ project.files, included f.1 = true → forge ∉ f.1) <| by
    constructor
    · intro all p c file
      exact all (p, c) (FileTree.mem_files.2 file)
    · intro whole f hf
      exact whole f.1 f.2 (FileTree.mem_files.1 hf)

/-- The commits that still stand after an action: a commit of an unbound workspace stands from the
start if nothing was in the way of its files, and until there is a commit of other files or one
that raises; a commit of a project stands if the project has no other in it. -/
def standingAfter (w : World) (standing : List Returned) : Action → List Returned
  | .commit id attempt revisionId _ =>
      match w.attempted S id attempt revisionId with
      | some r =>
          (standing.filter fun c =>
            c.home ≠ .unbound id || Same c.listing (manifest S.deployment.sha256 attempt)) ++
          if Clear (w.published id) attempt then [.ofPublished S id attempt r.commit] else []
      | none => standing.filter fun c => c.home ≠ .unbound id
  | .commitProject path project revisionId =>
      match w.attemptedProject S path project revisionId with
      | (_, .ok commit) =>
          standing ++ if Undivided project ∧ revisionId ≠ "current" then
            [.ofProject S path project commit] else []
      | (_, .error _) => standing
  | _ => standing

/-- A workspace without a project is committed again only with the files that were recorded, and a
commit is recorded only while it stands. -/
def Harmless (w : World) (standing : List Returned) : Action → Prop
  | .commit id attempt _ _ => ∀ c ∈ w.recorded, c.home = .unbound id →
      Same c.listing (manifest S.deployment.sha256 attempt)
  | .record c _ _ _ _ _ => c ∈ standing
  | _ => True

/-- One action that does no harm, with the commits that stand. -/
def HarmlessStep (a b : World × List Returned) : Prop :=
  ∃ action, a.1.Possible action ∧ Harmless S a.1 a.2 action ∧
    b = (a.1.act S action, standingAfter S a.1 a.2 action)

/-- One action, whatever it does. -/
def PossibleStep (a b : World) : Prop := ∃ action, a.Possible action ∧ b = a.act S action

/-- Nothing was committed or recorded yet. -/
structure World.Fresh (w : World) : Prop where
  revisions : w.store.db.revisions.rows = []
  pending : w.pending = []
  recorded : w.recorded = []

/-- The columns of a revision that refer to its evidence. -/
def RevisionRow.columns (r : RevisionRow) : String × String × String :=
  (r.manifestDigest, r.manifestRef, r.storageRef)

/-- What they are for a commit. -/
def Returned.columns (c : Returned) : String × String × String :=
  (c.manifestDigest, Location.text S c.home c.manifestRef, Location.text S c.home c.storageRef)

/-! ## Commits that stand -/

variable {S}

/-- A commit whose files are as they were committed. -/
inductive World.Stands (S : Setting) (w : World) (c : Returned) : Prop
  | unbound {id : Uuid} {members : List (String × String)} (home : c.home = .unbound id)
      (manifestRef : c.manifestRef = .publishedManifest) (storageRef : c.storageRef = .published)
      (nodup : (c.listing.map Prod.fst).Nodup)
      (written : manifestMembers c.listing = some members)
      (tree : Same c.listing (manifest S.deployment.sha256 (w.published id)))
      (file : (w.published id).fileAt [manifestName] =
        some (utf8 (manifestJson members 1).spaced))
      (digest : c.manifestDigest = S.deployment.sha256 (utf8 (manifestJson members 1).spaced))
  | bound {path r : String} {tree : FileTree Name} {members : List (String × String)}
      (home : c.home = .bound path) (manifestRef : c.manifestRef = .manifest r)
      (storageRef : c.storageRef = .revision r) (other : r ≠ "current")
      (nodup : (c.listing.map Prod.fst).Nodup)
      (written : manifestMembers c.listing = some members)
      (stored : (w.projects path).revisions r = some tree)
      (same : Same c.listing (manifest S.deployment.sha256 tree))
      (file : (w.projects path).manifests r = some (utf8 (manifestJson members 2).canonical))
      (digest : c.manifestDigest = S.deployment.sha256 (utf8 (manifestJson members 2).canonical))

variable {w w' : World} {c : Returned} {standing : List Returned}

theorem World.Stands.evidence (h : w.Stands S c) : w.Evidence S c := by
  cases h with
  | unbound home manifestRef storageRef nodup written tree file digest =>
      refine ⟨_, _, ?_, digest.symm, ?_, tree.lists nodup written Json.Separators.spaced 1⟩
      · rw [World.manifestFile, home, manifestRef]
        exact file
      · rw [World.storedTree, home, storageRef]
  | bound home manifestRef storageRef other nodup written stored same file digest =>
      refine ⟨_, _, ?_, digest.symm, ?_, same.lists nodup written Json.Separators.compact 2⟩
      · rw [World.manifestFile, home, manifestRef]
        exact file
      · rw [World.storedTree, home, storageRef]
        exact stored

/-- A commit stands where its files are the same. -/
theorem World.Stands.frame (h : w.Stands S c)
    (published : ∀ id, c.home = .unbound id → w'.published id = w.published id)
    (projects : ∀ path, c.home = .bound path → w'.projects path = w.projects path) :
    w'.Stands S c := by
  cases h with
  | unbound home manifestRef storageRef nodup written tree file digest =>
      rw [← published _ home] at tree file
      exact .unbound home manifestRef storageRef nodup written tree file digest
  | bound home manifestRef storageRef other nodup written stored same file digest =>
      rw [← projects _ home] at stored file
      exact .bound home manifestRef storageRef other nodup written stored same file digest

/-! ## Commits of unbound workspaces -/

section Unbound

variable {id : Uuid} {attempt : FileTree Name} {revisionId : String} {r : Published}

/-- A new commit stands where nothing was in the way of its files. -/
theorem stands_new (done : w.attempted S id attempt revisionId = some r)
    (clear : Clear (w.published id) attempt) (after : w'.published id = r.current) :
    w'.Stands S (.ofPublished S id attempt r.commit) := by
  obtain ⟨manifestRef, storageRef, members, written, file, digest⟩ := commitAttempt_manifest done
  have same := commitAttempt_publishes done clear
  rw [← after] at same file
  exact .unbound rfl manifestRef storageRef manifest_nodup written (fun p => (same p).symm) file
    digest

/-- A commit stands where its files are committed again. -/
theorem World.Stands.again (h : w.Stands S c) (home : c.home = .unbound id)
    (same : Same c.listing (manifest S.deployment.sha256 attempt))
    (done : w.attempted S id attempt revisionId = some r) (after : w'.published id = r.current) :
    w'.Stands S c := by
  cases h with
  | bound home' => exact absurd (home.symm.trans home') nofun
  | @unbound id' members home' manifestRef storageRef nodup written tree file digest =>
      cases Home.unbound.inj (home.symm.trans home')
      have clear : Clear (w.published id) attempt := (tree.symm.trans same).clear
      obtain ⟨-, -, members', written', file', -⟩ := commitAttempt_manifest done
      have same' := commitAttempt_publishes done clear
      rw [← after] at same' file'
      rw [Json.spaced, ← same.text nodup manifest_nodup written written' ", " ": " 1] at file'
      exact .unbound home manifestRef storageRef nodup written
        (same.trans fun p => (same' p).symm) file' digest

/-- Files that stand can be committed again. -/
theorem World.Stands.goesThrough (h : w.Stands S c) (home : c.home = .unbound id)
    (same : Same c.listing (manifest S.deployment.sha256 attempt)) (revisionId : String) :
    ∃ r, w.attempted S id attempt revisionId = some r := by
  cases h with
  | bound home' => exact absurd (home.symm.trans home') nofun
  | @unbound id' members home' manifestRef storageRef nodup written tree file digest =>
      cases Home.unbound.inj (home.symm.trans home')
      have named : (manifestMembers c.listing).isSome := by
        rw [written]
        rfl
      have publishable := (tree.symm.trans same).publishable
        (same.named nodup manifest_nodup named) file
      exact publishable.goes _ _ revisionId

/-- A commit of other files overwrites the evidence of those before it. -/
theorem World.Stands.overwritten (h : w.Stands S c) (home : c.home = .unbound id)
    (collisionFree : Function.Injective S.deployment.sha256)
    (other : ¬ Same c.listing (manifest S.deployment.sha256 attempt))
    (done : w.attempted S id attempt revisionId = some r) (after : w'.published id = r.current) :
    ¬ w'.Evidence S c := by
  cases h with
  | bound home' => exact absurd (home.symm.trans home') nofun
  | @unbound id' members home' manifestRef storageRef nodup written tree file digest =>
      cases Home.unbound.inj (home.symm.trans home')
      obtain ⟨-, -, members', written', file', -⟩ := commitAttempt_manifest done
      rintro ⟨b, t, there, hash, -⟩
      rw [World.manifestFile, home, manifestRef] at there
      dsimp only at there
      rw [after, file'] at there
      cases there
      rw [digest] at hash
      exact other (same_of_text nodup manifest_nodup written written' Json.Separators.spaced
        (utf8_injective (collisionFree hash)).symm)

end Unbound

/-! ## Commits of projects -/

section Project

variable {path : String} {project : FileTree Name} {revisionId : String}

/-- A revision that is stored stays as it is, whatever is committed. -/
theorem commitBoundProject_keeps {sha256 : List UInt8 → String} {le : String → String → Bool}
    {numerals : Json.Numerals} {m : Metadata} {r : String} {tree : FileTree Name}
    (stored : m.revisions r = some tree) (other : r ≠ "current") :
    (commitBoundProject sha256 le numerals m project revisionId).1.revisions r = some tree ∧
      (commitBoundProject sha256 le numerals m project revisionId).1.manifests r =
        m.manifests r := by
  rw [commitBoundProject]
  cases there : m.revisions revisionId with
  | some old => exact ⟨stored, rfl⟩
  | none =>
      have new : r ≠ revisionId := by
        rintro rfl
        cases stored.symm.trans there
      have kept : (m.copied revisionId (project.without fun n => n = forge)).revisions r =
          some tree := (if_neg new).trans stored
      cases loadManifest numerals (m.manifests "current") with
      | error e => exact ⟨stored, rfl⟩
      | ok before =>
          dsimp only
          cases manifestMembers (manifest sha256 project) with
          | none => exact ⟨kept, rfl⟩
          | some after => exact ⟨kept, (if_neg other).trans (if_neg new)⟩

/-- What a commit of a project that goes through leaves and returns. -/
theorem commitBoundProject_stores {sha256 : List UInt8 → String} {le : String → String → Bool}
    {numerals : Json.Numerals} {m m' : Metadata} {commit : Files.WorkspaceCommit String}
    (done : commitBoundProject sha256 le numerals m project revisionId = (m', .ok commit)) :
    ∃ members, manifestMembers (manifest sha256 project) = some members ∧
      m'.revisions revisionId = some (project.without fun n => n = forge) ∧
      m'.manifests revisionId = some (utf8 (manifestJson members 2).canonical) ∧
      commit.manifestDigest = sha256 (utf8 (manifestJson members 2).canonical) ∧
      commit.manifestRef = .manifest revisionId ∧ commit.storageRef = .revision revisionId := by
  rw [commitBoundProject] at done
  split at done
  · cases done
  cases loaded : loadManifest numerals (m.manifests "current") with
  | error e =>
      rw [loaded] at done
      cases done
  | ok before =>
      rw [loaded] at done
      dsimp only at done
      cases named : manifestMembers (manifest sha256 project) with
      | none =>
          rw [named] at done
          cases done
      | some members =>
          rw [named] at done
          cases done
          exact ⟨members, rfl, Metadata.copied_self _ _ _, written_manifests _ _ _, rfl, rfl, rfl⟩

/-- A new commit of a project stands where the project has no other in it. -/
theorem stands_newProject {m : Metadata} {commit : Files.WorkspaceCommit String}
    (done : w.attemptedProject S path project revisionId = (m, .ok commit))
    (whole : Undivided project) (other : revisionId ≠ "current") (after : w'.projects path = m) :
    w'.Stands S (.ofProject S path project commit) := by
  obtain ⟨members, written, stored, file, digest, manifestRef, storageRef⟩ :=
    commitBoundProject_stores done
  rw [← after] at stored file
  exact .bound rfl manifestRef storageRef other manifest_nodup written stored
    (fun p => (copy_manifest.2 whole p).symm) file digest

/-- A commit stands, whatever is committed of its project. -/
theorem World.Stands.keep (h : w.Stands S c) (home : c.home = .bound path)
    (after : w'.projects path = (w.attemptedProject S path project revisionId).1) :
    w'.Stands S c := by
  cases h with
  | unbound home' => exact absurd (home.symm.trans home') nofun
  | @bound path' r tree members home' manifestRef storageRef other nodup written stored same file
      digest =>
      cases Home.bound.inj (home.symm.trans home')
      obtain ⟨kept, unchanged⟩ : (w.attemptedProject S path project revisionId).1.revisions r =
            some tree ∧
          (w.attemptedProject S path project revisionId).1.manifests r =
            (w.projects path).manifests r := commitBoundProject_keeps stored other
      rw [← after] at kept unchanged
      exact .bound home manifestRef storageRef other nodup written kept same
        (unchanged.trans file) digest

end Project

/-! ## Runs -/

/-- Every row of a revision is that of a commit that was recorded, and these stand. -/
structure World.Kept (S : Setting) (w : World) (standing : List Returned) : Prop where
  rows : w.store.db.revisions.rows.map RevisionRow.columns = w.recorded.map (Returned.columns S)
  recorded : ∀ c ∈ w.recorded, c ∈ standing
  stands : ∀ c ∈ standing, w.Stands S c

theorem World.Kept.commit (h : w.Kept S standing) {id : Uuid} {attempt left : FileTree Name}
    {revisionId : String} (harmless : Harmless S w standing (.commit id attempt revisionId left)) :
    (w.act S (.commit id attempt revisionId left)).Kept S
      (standingAfter S w standing (.commit id attempt revisionId left)) := by
  rw [act, standingAfter]
  have away : ∀ {tree : FileTree Name} {pending : List Returned}, ∀ c ∈ standing,
      c.home ≠ .unbound id →
      World.Stands S { w with published := Function.update w.published id tree, pending } c := by
    intro tree pending c hc elsewhere
    refine (h.stands c hc).frame (fun id' home => ?_) fun _ _ => rfl
    refine Function.update_of_ne ?_ _ _
    rintro rfl
    exact elsewhere home
  cases done : w.attempted S id attempt revisionId with
  | none =>
      refine ⟨h.rows, fun c hc => ?_, fun c hc => ?_⟩
      · refine List.mem_filter.2 ⟨h.recorded c hc, decide_eq_true fun home => ?_⟩
        obtain ⟨r, through⟩ :=
          (h.stands c (h.recorded c hc)).goesThrough home (harmless c hc home) revisionId
        cases done.symm.trans through
      · obtain ⟨old, elsewhere⟩ := List.mem_filter.1 hc
        exact away c old (of_decide_eq_true elsewhere)
  | some r =>
      refine ⟨h.rows, fun c hc => ?_, fun c hc => ?_⟩
      · refine List.mem_append_left _ (List.mem_filter.2 ⟨h.recorded c hc, ?_⟩)
        rw [Bool.or_eq_true, decide_eq_true_eq, decide_eq_true_eq, ← imp_iff_not_or]
        exact harmless c hc
      · rcases List.mem_append.1 hc with hc | hc
        · obtain ⟨old, kept⟩ := List.mem_filter.1 hc
          by_cases home : c.home = .unbound id
          · have same : Same c.listing (manifest S.deployment.sha256 attempt) := by
              simpa [home] using kept
            exact (h.stands c old).again home same done (Function.update_self _ _ _)
          · exact away c old home
        · split at hc
          next clear =>
            cases List.mem_singleton.1 hc
            exact stands_new done clear (Function.update_self _ _ _)
          · cases hc

theorem World.Kept.commitProject (h : w.Kept S standing) {path : String}
    {project : FileTree Name} {revisionId : String} :
    (w.act S (.commitProject path project revisionId)).Kept S
      (standingAfter S w standing (.commitProject path project revisionId)) := by
  rw [act, standingAfter]
  have old : ∀ {pending : List Returned}, ∀ c ∈ standing,
      World.Stands S { w with
        projects := Function.update w.projects path
          (w.attemptedProject S path project revisionId).1
        pending } c := by
    intro pending c hc
    by_cases home : c.home = .bound path
    · exact (h.stands c hc).keep home (Function.update_self _ _ _)
    · refine (h.stands c hc).frame (fun _ _ => rfl) fun path' home' => ?_
      refine Function.update_of_ne ?_ _ _
      rintro rfl
      exact home home'
  cases done : w.attemptedProject S path project revisionId with
  | mk m result =>
      rw [done] at old
      cases result with
      | error e => exact ⟨h.rows, h.recorded, old⟩
      | ok commit =>
          refine ⟨h.rows, fun c hc => List.mem_append_left _ (h.recorded c hc), fun c hc => ?_⟩
          rcases List.mem_append.1 hc with hc | hc
          · exact old c hc
          · split at hc
            next fit =>
              cases List.mem_singleton.1 hc
              exact stands_newProject done fit.1 fit.2 (Function.update_self _ _ _)
            · cases hc

theorem World.Kept.record (h : w.Kept S standing) {scopeId : String} {workspaceId attemptId : Uuid}
    {epoch : Nat} {actor : String} (stands : c ∈ standing) :
    (w.act S (.record c scopeId workspaceId attemptId epoch actor)).Kept S standing := by
  rw [act]
  cases ended : recordWorkspaceRevision S.deployment scopeId workspaceId attemptId epoch
      (c.toCommit S) actor w.store with
  | error e t =>
      refine ⟨?_, h.recorded, fun c hc => (h.stands c hc).frame (fun _ _ => rfl) fun _ _ => rfl⟩
      dsimp only
      rw [recordWorkspaceRevision_error_db ended]
      exact h.rows
  | ok u t =>
      obtain ⟨row, r, revisions, now, -, -, -, -, insert, -, -, -, -, digest, manifestRef,
        storageRef, db⟩ := recordWorkspaceRevision_eq_ok ended
      refine ⟨?_, fun c' hc => ?_,
        fun c hc => (h.stands c hc).frame (fun _ _ => rfl) fun _ _ => rfl⟩
      · dsimp only
        rw [db, (Table.insert?_eq_some.1 insert).2, List.map_append, List.map_append, h.rows,
          List.map_singleton, List.map_singleton, RevisionRow.columns, digest, manifestRef,
          storageRef]
        rfl
      · rcases List.mem_append.1 hc with hc | hc
        · exact h.recorded c' hc
        · cases List.mem_singleton.1 hc
          exact stands

/-- One action that does no harm. -/
theorem World.Kept.step {b : World × List Returned} (h : w.Kept S standing)
    (st : HarmlessStep S (w, standing) b) : b.1.Kept S b.2 := by
  obtain ⟨action, possible, harmless, rfl⟩ := st
  cases action with
  | commit => exact h.commit harmless
  | commitProject => exact h.commitProject
  | record => exact h.record harmless
  | call op =>
      refine ⟨?_, h.recorded, fun c hc => (h.stands c hc).frame (fun _ _ => rfl) fun _ _ => rfl⟩
      have quiet : w.store.db.Quiet (op.exec S.deployment w.store).db := Op.exec_quiet possible
      dsimp only [act]
      rw [quiet.revisions]
      exact h.rows
  | crash =>
      exact ⟨h.rows, h.recorded,
        fun c hc => (h.stands c hc).frame (fun _ _ => rfl) fun _ _ => rfl⟩

theorem World.Fresh.kept (fresh : w.Fresh) {b : World × List Returned}
    (run : Relation.ReflTransGen (HarmlessStep S) (w, []) b) : b.1.Kept S b.2 := by
  induction run with
  | refl =>
      refine ⟨by rw [fresh.revisions, fresh.recorded]; rfl, fun c hc => ?_, fun c hc => ?_⟩
      · rw [fresh.recorded] at hc
        cases hc
      · cases hc
  | tail _ st ih => exact ih.step st

/-- **Recorded revisions stay verifiable** in every run of actions that do no harm: the rows are
those of commits whose manifest and tree are still there. -/
theorem World.Fresh.evidence_kept (fresh : w.Fresh) {b : World × List Returned}
    (run : Relation.ReflTransGen (HarmlessStep S) (w, []) b) :
    b.1.store.db.revisions.rows.map RevisionRow.columns = b.1.recorded.map (Returned.columns S) ∧
      ∀ c ∈ b.1.recorded, b.1.Evidence S c := by
  have kept := fresh.kept run
  exact ⟨kept.rows, fun c hc => (kept.stands c (kept.recorded c hc)).evidence⟩

/-! ## A workspace that is committed twice -/

/-- Workspaces below `/var/lib`. -/
def Setting.plain : Setting where
  deployment := .verbatim
  root := "/var/lib/code-forge/workspaces"
  le _ _ := true
  leText _ _ := true
  numerals := .plain

private def report : Name := .text "report" (by decide)

/-- A run of a session without a project is being worked on, and its workspace is empty. -/
def World.claimed : World where
  store := Op.execAll .verbatim (Op.legacySend ++ [.claimAny]) {}
  published _ := .empty
  projects _ := .empty
  pending := []
  recorded := []

/-- The run has its workspace, and no revision was recorded. -/
theorem World.claimed_workspace : World.claimed.Fresh ∧
    Reachable Setting.plain.deployment {} World.claimed.store ∧
    ∃ row, World.claimed.store.db.workspace "ada" ⟨1⟩ = some row ∧
      row.activeAttemptId = some ⟨4⟩ ∧ row.workspaceEpoch = 1 ∧
      row.leaseExpired (Setting.plain.deployment.clock World.claimed.store.ticks) = false := by
  have facts : World.claimed.store.db.revisions.rows.length = 0 ∧
      (World.claimed.store.db.workspace "ada" ⟨1⟩).map (fun row =>
        (row.activeAttemptId, row.workspaceEpoch,
          row.leaseExpired (Setting.plain.deployment.clock World.claimed.store.ticks))) =
        some (some ⟨4⟩, 1, false) := by decide +kernel
  obtain ⟨empty, columns⟩ := facts
  obtain ⟨row, known, columns⟩ := Option.map_eq_some_iff.1 columns
  simp only [Prod.mk.injEq] at columns
  obtain ⟨active, epoch, lease⟩ := columns
  exact ⟨⟨List.length_eq_zero_iff.1 empty, rfl, rfl⟩, .execAll fun op _ => op.obeys_default, row,
    known, active, epoch, lease⟩

/-- A report is written. -/
private def reported (content : List UInt8) : FileTree Name := .build [([report], .file content)]

/-- The first revision is recorded. -/
theorem World.claimed_records : ∃ (c : Returned) (w : World),
    Relation.ReflTransGen (HarmlessStep .plain) (World.claimed, []) (w, [c]) ∧
    w.recorded = [c] ∧ c.home = .unbound ⟨1⟩ ∧
    c.listing = manifest plainDigest (reported [1]) ∧
    some (w.published ⟨1⟩) = (commitAttempt plainDigest (fun _ _ => true) .empty (reported [1])
      "r1").map Published.current := by
  obtain ⟨fresh, -, row, known, active, epoch, lease⟩ := World.claimed_workspace
  have goes : (World.claimed.attempted .plain ⟨1⟩ (reported [1]) "r1").isSome = true := by
    decide +kernel
  obtain ⟨r, done⟩ := Option.isSome_iff_exists.1 goes
  have clear : Clear (World.claimed.published ⟨1⟩) (reported [1]) := by decide +kernel
  set c : Returned := .ofPublished .plain ⟨1⟩ (reported [1]) r.commit
  have unused : ∀ b ∈ World.claimed.store.db.revisions, b.id ≠ (c.toCommit .plain).revisionId := by
    intro b hb
    rw [Table.mem_def, fresh.revisions] at hb
    cases hb
  obtain ⟨t, recorded⟩ := recordWorkspaceRevision_goes known active lease unused "w1"
  rw [epoch] at recorded
  have first : HarmlessStep .plain (World.claimed, [])
      ({ World.claimed with
        published := Function.update World.claimed.published ⟨1⟩ r.current
        pending := [c] }, [c]) := by
    have harmless : Harmless .plain World.claimed []
        (.commit ⟨1⟩ (reported [1]) "r1" .empty) := by
      intro c hc
      cases hc
    refine ⟨.commit ⟨1⟩ (reported [1]) "r1" .empty, trivial, harmless, ?_⟩
    rw [World.act, standingAfter, done]
    dsimp only
    rw [if_pos clear]
    rfl
  have second : HarmlessStep .plain
      ({ World.claimed with
        published := Function.update World.claimed.published ⟨1⟩ r.current, pending := [c] }, [c])
      ({ World.claimed with
        store := t
        published := Function.update World.claimed.published ⟨1⟩ r.current
        pending := [c].erase c
        recorded := [c] }, [c]) := by
    refine ⟨.record c "ada" ⟨1⟩ ⟨4⟩ 1 "w1", List.mem_singleton_self c, List.mem_singleton_self c,
      ?_⟩
    rw [World.act, recorded]
    rfl
  refine ⟨c, _, .tail (.single first) second, rfl, rfl, rfl, ?_⟩
  dsimp only
  rw [Function.update_self]
  exact (congrArg (Option.map Published.current) done).symm

/-- The revision is verifiable. -/
theorem World.evidence_kept_claimed : ∃ b : World × List Returned,
    Relation.ReflTransGen (HarmlessStep .plain) (World.claimed, []) b ∧
    b.1.recorded.length = 1 ∧ ∀ c ∈ b.1.recorded, b.1.Evidence .plain c := by
  obtain ⟨c, w, run, recorded, -⟩ := World.claimed_records
  refine ⟨_, run, by rw [recorded]; rfl, ?_⟩
  exact (World.Fresh.evidence_kept World.claimed_workspace.1 run).2

/-- The next commit overwrites what it refers to. -/
theorem World.evidence_overwritten : ∃ (start w : World) (c : Returned), start.Fresh ∧
    Reachable Setting.plain.deployment {} start.store ∧
    Relation.ReflTransGen (PossibleStep .plain) start w ∧ c ∈ w.recorded ∧
    ¬ w.Evidence .plain c := by
  obtain ⟨fresh, reachable, -⟩ := World.claimed_workspace
  obtain ⟨c, w, run, recorded, home, listing, published⟩ := World.claimed_records
  have goes : ((commitAttempt plainDigest (fun _ _ => true) .empty (reported [1]) "r1").bind
      fun r => commitAttempt plainDigest (fun _ _ => true) r.current (reported [2]) "r2").isSome =
        true := by decide +kernel
  have again : (w.attempted .plain ⟨1⟩ (reported [2]) "r2").isSome = true := by
    obtain ⟨r, done, here⟩ := Option.map_eq_some_iff.1 published.symm
    rw [done, Option.bind_some, here] at goes
    exact goes
  obtain ⟨r, done⟩ := Option.isSome_iff_exists.1 again
  have stands : w.Stands .plain c := (fresh.kept run).stands c (List.mem_singleton_self c)
  have possible : Relation.ReflTransGen (PossibleStep .plain) World.claimed w := by
    refine run.lift Prod.fst fun a b st => ?_
    obtain ⟨action, possible, -, rfl⟩ := st
    exact ⟨action, possible, rfl⟩
  have other : ¬ Same c.listing (manifest plainDigest (reported [2])) := by
    rw [listing]
    decide +kernel
  refine ⟨_, _, c, fresh, reachable,
    possible.tail ⟨.commit ⟨1⟩ (reported [2]) "r2" .empty, trivial, rfl⟩, ?_,
    stands.overwritten home plainDigest_injective other done ?_⟩
  · rw [World.act, done]
    dsimp only
    rw [recorded]
    exact List.mem_singleton_self c
  · rw [World.act, done]
    dsimp only
    exact Function.update_self _ _ _

end CodeForge
