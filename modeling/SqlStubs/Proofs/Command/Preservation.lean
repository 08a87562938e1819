import SqlStubs.Proofs.Command.Batch
import SqlStubs.Proofs.Files.Shape

/-!
# What a batch does to its inputs

Symbolic links may lead anywhere, so the destination of one input may be another input.  Before a
batch begins, an input is compared with its own destination only, and `run_batch_overwrites` is a
batch that succeeds and loses an input to the output of another.  `run_batch_reads`: if no input is
the destination of another, then what is read through each of them is the same before and after,
however the batch ends.

The places of the inputs are fixed when the directory has been made, and from then on the batch only
makes and writes files, which moves no path.  A file that is made at the place of an input would
have been there before, and so its path would have led to the input from the start.
-/

namespace SqlStubs

namespace Command

open Files

variable {s : Settings} {directory path : Text} {paths : List Text} {start files : Files}
  {canceled : Bool} {kept : Place → Prop}

/-- Files have been made or written, but none at the places to be kept. -/
structure Spares (kept : Place → Prop) (fs fs' : Files) : Prop where
  shape : fs.SameShape fs'
  node : ∀ place, kept place → fs'.node? place = fs.node? place

/-- One file is translated to a path that leads to no place to be kept. -/
theorem Spares.translateFile {target : Text} (h : Spares kept start files)
    (htarget : ∀ place, kept place → place? (start.resolve true target) ≠ some place) :
    Spares kept start (Command.translateFile s canceled files path target).1 := by
  unfold Command.translateFile
  split
  · exact h
  · split
    · exact h
    · rename_i hcreate
      obtain ⟨rfl, hplace, hmade⟩ := create_eq_ok hcreate
      dsimp only
      rw [put_put]
      -- making the output and writing it are one change, at the place of the destination
      refine ⟨h.shape.trans (.put hplace _), fun place hkept => ?_⟩
      have hne : place ≠ _ := fun heq => htarget place hkept <| by
        rw [← h.shape.place?_resolve, hmade, heq]
      rw [node?_put _ hplace.ne_nil, if_neg hne, h.node place hkept]

/-- All files are translated to paths that lead to no place to be kept. -/
theorem Spares.foldl_step {b : BatchState} (h : Spares kept start b.files)
    (htargets : ∀ path ∈ paths, ∀ place, kept place →
      place? (start.resolve true (destination directory path)) ≠ some place) :
    Spares kept start (paths.foldl (BatchState.step s canceled directory) b).files := by
  induction paths generalizing b with
  | nil => exact h
  | cons path paths ih =>
    rw [List.forall_mem_cons] at htargets
    exact ih (h.translateFile htargets.1) htargets.2

/-- No input leads to the place of the destination of another. -/
def Apart (fs : Files) (directory : Text) (paths : List Text) : Prop :=
  ∀ a ∈ paths, ∀ b ∈ paths, a ≠ b → ¬fs.Meet a (destination directory b)

/-- There is a file that one of the paths leads to. -/
def IsInput (fs : Files) (paths : List Text) (place : Place) : Prop :=
  ∃ path ∈ paths, ∃ node content, fs.locate path = .ok (place, node) ∧
    fs.node? place = some (.file content)

/-- With the comparisons that are made, no destination leads to an input. -/
theorem place?_destination_ne (hapart : Apart start directory paths)
    (hown : ∀ path ∈ paths, start.samePath path (destination directory path) = false)
    {b : Text} (hb : b ∈ paths) {place : Place} (hinput : IsInput start paths place) :
    place? (start.resolve true (destination directory b)) ≠ some place := by
  obtain ⟨a, ha, node, content, hlocate, hfile⟩ := hinput
  intro hplace
  cases hresolve : start.resolve true (destination directory b) with
  | error fault =>
    rw [hresolve] at hplace
    cases hplace
  | ok target =>
    rw [hresolve] at hplace
    cases target with
    | missing =>
      cases hplace
      -- there is a file at the place of an input, so it is not missing
      cases (node?_of_resolve hresolve rfl).symm.trans hfile
    | found =>
      cases hplace
      have hdestination := locate_eq_ok.2 hresolve
      -- an input and its own destination have been compared, and others are apart
      by_cases hab : a = b
      · subst hab
        exact ne_of_samePath_eq_false (hown a ha) hlocate hdestination rfl
      · exact hapart a ha b hb hab ⟨_, _, _, hlocate, hdestination⟩

/-- What is read through an input is the same after a batch, however it ends. -/
theorem batch_reads {w : World} {content : Text}
    (hapart : ∀ files, w.files.makeDirectories directory = .ok files →
      Apart files directory paths)
    (hpath : path ∈ paths) (hreads : w.files.Reads path content) :
    (batch s w directory paths).1.files.Reads path content := by
  unfold batch
  split
  · exact hreads
  · rename_i start hmade
    -- making the directory only adds nodes
    have hstart := (makeDirectories_extends hmade).reads hreads
    split
    · exact hstart
    · rename_i haccepted
      obtain ⟨-, -, hown⟩ := refusal?_eq_none_iff.1 haccepted
      have hspares := @Spares.foldl_step { s with filename := [] } directory paths start w.canceled
        (IsInput start paths) { files := start } ⟨.refl start, fun _ _ => rfl⟩
        fun b hb place => place?_destination_ne (hapart start hmade) hown hb
      refine hspares.shape.reads (fun place node hlocate => ?_) hstart
      obtain ⟨place', node', hlocate', hcontent⟩ := hstart
      cases hlocate.symm.trans hlocate'
      exact hspares.node place ⟨path, hpath, node, content, hlocate, contentAt_eq_ok hcontent⟩

/-- If no input is the destination of another when the directory has been made, then what is read
through each input is the same before and after, whatever becomes of the batch. -/
theorem run_batch_reads (w : World) (arguments : List Text) (p : ParsedArguments)
    (hname : (find arguments).1 = .batch)
    (hread : ParsedArguments.ofList (flagsOf .batch) (find arguments).2 = .ok p)
    (hapart : ∀ files, w.files.makeDirectories (p.text "output") = .ok files →
      Apart files (p.text "output") p.others) :
    ∀ path ∈ p.others, ∀ content, w.files.Reads path content →
      (run w arguments).1.files.Reads path content := by
  intro path hpath content hreads
  rw [(run_eq_runCommand hname).1, runCommand_batch hread]
  -- where the batch is not begun, no file is touched
  cases countFault? .batch p.others with
  | some message => exact hreads
  | none =>
    rw [Option.elim_none]
    cases hload : Settings.load w.files w.environment (p.text "config") p.layer with
    | error fault =>
      rw [withSettings, hload]
      exact hreads
    | ok s =>
      cases houtput : requiredFault? .batch p with
      | some message =>
        rw [withSettings, hload]
        dsimp only
        rw [houtput]
        dsimp only
        split <;> exact hreads
      | none =>
        obtain ⟨w', hfiles, hbatch⟩ := withSettings_batch hload houtput
        rw [hbatch]
        exact batch_reads (hfiles ▸ hapart) hpath (hfiles ▸ hreads)

/-- Two inputs are the same file, one of them through a link, and are translated into two new files
of a new directory. -/
theorem run_batch_reads_through_link :
    let w : World := { files.nodes.entries :=
      [([Text.utf8 "a.sql"], .file (Text.utf8 "CREATE FUNCTION f();")),
        ([Text.utf8 "b.sql"], .link (Text.utf8 "a.sql"))] }
    let arguments := ["batch", "-o", "out", "a.sql", "b.sql"].map Text.utf8
    w.files.Reads (Text.utf8 "b.sql") (Text.utf8 "CREATE FUNCTION f();") ∧
      (run w arguments).1.files.Reads (Text.utf8 "b.sql") (Text.utf8 "CREATE FUNCTION f();") := by
  intro w arguments
  let p : ParsedArguments :=
    { flags.entries := [(Text.utf8 "output", .text (Text.utf8 "out"))]
      others := [Text.utf8 "a.sql", Text.utf8 "b.sql"] }
  have hname : (find arguments).1 = .batch := by decide +kernel
  have hread : ParsedArguments.ofList (flagsOf .batch) (find arguments).2 = .ok p := by
    decide +kernel
  have hreads : w.files.Reads (Text.utf8 "b.sql") (Text.utf8 "CREATE FUNCTION f();") := by
    refine ⟨[Text.utf8 "a.sql"], .file (Text.utf8 "CREATE FUNCTION f();"), ?_, ?_⟩
    · decide +kernel
    · decide +kernel
  have hmade : w.files.makeDirectories (p.text "output") =
      .ok (w.files.put [Text.utf8 "out"] .directory) := by decide +kernel
  have hnew : ∀ b ∈ p.others, (w.files.put [Text.utf8 "out"] .directory).locate
      (destination (p.text "output") b) = .error .noEntry := by decide +kernel
  refine ⟨hreads, run_batch_reads w arguments p hname hread (fun files hfiles => ?_) _
    (by simp [p]) _ hreads⟩
  cases hmade.symm.trans hfiles
  rintro a - b hb - ⟨place, m, n, -, hlocate⟩
  cases (hnew b hb).symm.trans hlocate

/-- The destination of the second input is a link to the first.  The batch succeeds, and the first
input is lost. -/
theorem run_batch_overwrites :
    let w : World := { files.nodes.entries :=
      [([Text.utf8 "a.sql"], .file (Text.utf8 "CREATE FUNCTION f();")),
        ([Text.utf8 "b.sql"], .file (Text.utf8 "CREATE FUNCTION g();")),
        ([Text.utf8 "out"], .directory),
        ([Text.utf8 "out", Text.utf8 "b.sql"], .link (Text.utf8 "../a.sql"))] }
    let arguments := ["batch", "-o", "out", "a.sql", "b.sql"].map Text.utf8
    let p : ParsedArguments :=
      { flags.entries := [(Text.utf8 "output", .text (Text.utf8 "out"))]
        others := [Text.utf8 "a.sql", Text.utf8 "b.sql"] }
    (find arguments).1 = .batch ∧
      ParsedArguments.ofList (flagsOf .batch) (find arguments).2 = .ok p ∧
      w.files.Reads (Text.utf8 "a.sql") (Text.utf8 "CREATE FUNCTION f();") ∧
      ¬(run w arguments).1.files.Reads (Text.utf8 "a.sql") (Text.utf8 "CREATE FUNCTION f();") := by
  intro w arguments p
  have hname : (find arguments).1 = .batch := by decide +kernel
  have hread : ParsedArguments.ofList (flagsOf .batch) (find arguments).2 = .ok p := by
    decide +kernel
  have hlocate : w.files.locate (Text.utf8 "a.sql") =
      .ok ([Text.utf8 "a.sql"], .file (Text.utf8 "CREATE FUNCTION f();")) := by decide +kernel
  -- the link has been followed, so the output of the second input is where the first one was
  have hafter : (run w arguments).1.files.locate (Text.utf8 "a.sql") =
      .ok ([Text.utf8 "a.sql"], .file (Text.utf8 "void g() { };\n")) := by decide +kernel
  have hcontent : (run w arguments).1.files.contentAt [Text.utf8 "a.sql"] =
      .ok (Text.utf8 "void g() { };\n") := by decide +kernel
  refine ⟨hname, hread, ⟨_, _, hlocate, by decide +kernel⟩, ?_⟩
  rintro ⟨place, node, hfound, hkept⟩
  cases hfound.symm.trans hafter
  rw [hcontent, Except.ok.injEq] at hkept
  exact absurd hkept (by decide +kernel)

end Command

end SqlStubs
