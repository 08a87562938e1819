import SqlStubs.Command
import SqlStubs.Proofs.Command.Translate
import SqlStubs.Proofs.Files
import SqlStubs.Proofs.Flags

/-!
# A batch is its files one by one

Inputs and outputs are files of one tree.  `run_batch`: without symbolic links, a batch that
succeeds leaves at each destination what translating its input alone would write, and changes
nothing else; and one that is refused writes no file at all.

Every output is in the directory of the batch under the base name of its input, and every input has
its own base name as its last name too.  So with distinct base names only the output of an input
itself could get in its way, and that has been ruled out before the first file is written.  The run
is followed with `Progress`, which compares the tree with the one at its start.

For the same reason the order of the inputs does not matter.  Whether an input can be translated
depends only on the tree at the start of the run (`Ready`), and so does what `Progress` says of the
tree at its end; `batch_perm` puts the two together.
-/

namespace SqlStubs

namespace Command

open Files

variable {s : Settings} {directory path : Text} {paths : List Text} {out : Place}
  {start files : Files} {canceled : Bool}

/-! ### Inputs that are refused -/

/-- Inputs are refused as wrong usage. -/
theorem status_refusal? {seen : Table Text Text} {failure : Failure}
    (h : refusal? files directory seen paths = some failure) :
    failure.status = some usageStatus := by
  fun_induction refusal? files directory seen paths with
  | case1 => cases h
  | case2 => cases h; rfl
  | case3 => cases h; rfl
  | case4 _ _ _ _ _ ih => exact ih h

/-- Inputs are accepted if their base names are new and distinct, and no input is its own
destination. -/
theorem refusal?_eq_none_iff {seen : Table Text Text} :
    refusal? files directory seen paths = none ↔
      (∀ path ∈ paths, seen.get? (Path.base path) = none) ∧ (paths.map Path.base).Nodup ∧
        ∀ path ∈ paths, files.samePath path (destination directory path) = false := by
  induction paths generalizing seen with
  | nil => simp [refusal?]
  | cons path rest ih =>
    rw [refusal?]
    split
    · -- an earlier input has the base name
      rename_i earlier hearlier
      simp [hearlier]
    · rename_i hnone
      split
      · rename_i hsame
        simp [hsame]
      · rename_i hsame
        -- the base name is seen from now on, so that the later ones have to differ from it
        rw [ih]
        simp only [Table.get?_insert, List.forall_mem_cons, List.map_cons, List.nodup_cons,
          List.mem_map, hnone, Bool.eq_false_iff.2 hsame]
        grind

/-! ### One file -/

/-- A file is translated without a failure only if its input is found, its output is made, and the
input is read after that and can be translated; what is written is then the translation of what was
read. -/
theorem exists_of_translateFile {target : Text}
    (h : (translateFile s canceled files path target).2.2 = none) :
    ∃ input node made content files', canceled = false ∧ files.locate path = .ok (input, node) ∧
      files.create target = .ok (files', made) ∧ files'.node? input = some (.file content) ∧
      (translateInput s false path (.ok content) {}).failure = none ∧
      (translateFile s canceled files path target).1 =
        files'.put made
          (.file (translateInput s false path (.ok content) {}).sink.taken.toList) := by
  unfold translateFile at h ⊢
  split at h
  · cases h
  · rename_i input node hlocate
    split at h
    · cases h
    · rename_i files' made hcreate
      dsimp only at h
      obtain ⟨rfl, content, hsource, -⟩ := failure_translateInput_eq_none_iff.1 h
      rw [hsource] at h
      refine ⟨input, node, made, content, files', rfl, hlocate, hcreate, ?_, h, ?_⟩
      · unfold sourceAt at hsource
        cases hcontent : files'.contentAt input with
        | error fault => rw [hcontent] at hsource; cases hsource
        | ok found =>
          rw [hcontent] at hsource
          cases hsource
          exact contentAt_eq_ok hcontent
      · dsimp only
        rw [hsource]

/-- A file that is not translated is a failure of the command. -/
theorem exitStatus_translateFile {target : Text} {failure : Failure}
    (h : (translateFile s canceled files path target).2.2 = some failure) :
    exitStatus (some failure) ≠ 0 := by
  have husage : usageStatus ≠ 0 := by decide
  unfold translateFile at h
  split at h
  · cases h
    exact husage
  · split at h
    · cases h
      exact husage
    · rw [exitStatus, status_translateInput h]
      decide

/-! ### Files so far -/

/-- An input of a batch that has been translated: in the tree at the start it is a file and not its
own destination, and now the destination has what was written for it. -/
structure Done (s : Settings) (directory : Text) (out : Place) (start files : Files) (path : Text)
    (input : Place) (content : Text) : Prop where
  proper : Path.IsProper (Path.base path)
  source : start.LeadsTo path (.found input (.file content))
  ne : input ≠ out ++ [Path.base path]
  success : (translateInput s false path (.ok content) {}).failure = none
  output : files.LeadsTo (destination directory path) (.found (out ++ [Path.base path])
    (.file (translateInput s false path (.ok content) {}).sink.taken.toList))

/-- Some inputs have been translated, and nothing has changed but at their destinations. -/
structure Progress (s : Settings) (directory : Text) (out : Place) (start : Files)
    (paths : List Text) (files : Files) : Prop where
  here : files.here = start.here
  directories : ∀ place, files.node? place = some .directory ↔ start.node? place = some .directory
  unchanged : ∀ place, (∀ path ∈ paths, place ≠ out ++ [Path.base path]) →
    files.node? place = start.node? place
  done : ∀ path ∈ paths, ∃ input content, Done s directory out start files path input content

namespace Progress

theorem refl : Progress s directory out start [] start where
  here := rfl
  directories _ := Iff.rfl
  unchanged _ _ := rfl
  done := by simp

theorem keeps (h : Progress s directory out start paths files) : start.Keeps files :=
  ⟨h.here, fun place => (h.directories place).2⟩

theorem kept (h : Progress s directory out start paths files) : files.Keeps start :=
  ⟨h.here.symm, fun place => (h.directories place).1⟩

theorem noLinks (h : Progress s directory out start paths files) (hlinks : start.NoLinks) :
    files.NoLinks := by
  intro place link
  by_cases hplace : ∃ path ∈ paths, place = out ++ [Path.base path]
  -- at a destination there is a file by now
  · obtain ⟨path, hpath, rfl⟩ := hplace
    obtain ⟨input, content, hdone⟩ := h.done path hpath
    have hnode := hdone.output.leads.node?_place rfl
    rw [show files.node? (out ++ [Path.base path]) = _ from hnode]
    simp [Target.node?]
  · have hother : ∀ path ∈ paths, place ≠ out ++ [Path.base path] := by
      intro path hpath heq
      exact hplace ⟨path, hpath, heq⟩
    rw [h.unchanged place hother]
    exact hlinks place link

/-- What has a base name that none of the inputs has is as it was. -/
theorem node?_concat (h : Progress s directory out start paths files) (above : Place) {name : Text}
    (hname : name ∉ paths.map Path.base) :
    files.node? (above ++ [name]) = start.node? (above ++ [name]) := by
  apply h.unchanged
  intro other hother heq
  have hlast : name = Path.base other := by simpa using (List.append_inj' heq rfl).2
  exact hname (hlast ▸ List.mem_map_of_mem hother)

/-- A file that is written for one more input gets in the way of no other. -/
theorem put {input : Place} {content text : Text} (h : Progress s directory out start paths files)
    (hlinks : start.NoLinks) (hbase : Path.base path ∉ paths.map Path.base)
    (hmade : files.node? (out ++ [Path.base path]) ≠ some .directory)
    (hdone : Done s directory out start (files.put (out ++ [Path.base path]) (.file text)) path
      input content) :
    Progress s directory out start (paths ++ [path])
      (files.put (out ++ [Path.base path]) (.file text)) := by
  have hne : out ++ [Path.base path] ≠ [] := by simp
  -- the directories, the places that are no destination, and the inputs so far
  refine ⟨h.here, fun place => ?_, fun place hother => ?_, fun other hmem => ?_⟩
  · rw [node?_put files hne, ← h.directories]
    split
    · rename_i heq
      rw [heq]
      simp [hmade]
    · rfl
  · rw [List.forall_mem_append] at hother
    rw [node?_put files hne, if_neg (hother.2 path (by simp)), h.unchanged place hother.1]
  · rcases List.mem_append.1 hmem with hold | hnew
    · obtain ⟨source, found, hearlier⟩ := h.done other hold
      -- the destinations differ since the base names do
      have hother : out ++ [Path.base other] ≠ out ++ [Path.base path] := by
        intro heq
        have hlast : Path.base other = Path.base path := by simpa using heq
        exact hbase (hlast ▸ List.mem_map_of_mem hold)
      refine ⟨source, found, hearlier.proper, hearlier.source, hearlier.ne, hearlier.success, ?_⟩
      refine hearlier.output.again_node (keeps_put hne hmade _)
        ((h.noLinks hlinks).put hne (by simp)) ?_ (by simp [Target.isDirectory])
      rw [node?_put files hne]
      exact (if_neg hother).trans (hearlier.output.leads.node?_place rfl)
    · obtain rfl : other = path := List.mem_singleton.1 hnew
      exact ⟨input, content, hdone⟩

/-- An input is not at the place of its own destination, or they would have been the same at the
start. -/
theorem ne_destination {input : Place} {node : Node} {target : Target}
    (h : Progress s directory out start paths files) (hlinks : start.NoLinks)
    (hsame : start.samePath path (destination directory path) = false)
    (hstart : start.LeadsTo path (.found input node)) (hnode : start.node? input = some node)
    (htarget : files.LeadsTo (destination directory path) target)
    (hfile : target.isDirectory = false) (hplace : target.place = out ++ [Path.base path]) :
    input ≠ out ++ [Path.base path] := by
  intro heq
  have hthere : start.node? target.place = some node := by
    rw [hplace, ← heq, hnode]
  have hdestination := htarget.again_node h.kept hlinks hthere (by simp [hfile])
  apply ne_of_samePath_eq_false hsame hstart.locate_eq hdestination.locate_eq
  rw [hplace, heq]

/-- After one more input without a failure, the tree differs from the one at the start only at one
more destination, which has the translation of what the input held at the start.  This is the step
of the invariant.  It needs that the input has not been written before, as its base name is new, and
that it is not written now, as it is not its own destination. -/
theorem step (h : Progress s directory out start paths files) (hlinks : start.NoLinks)
    (hdirectory : start.LeadsTo directory (.found out .directory))
    (hbase : Path.base path ∉ paths.map Path.base)
    (hsame : start.samePath path (destination directory path) = false)
    (hnone : (translateFile s canceled files path (destination directory path)).2.2 = none) :
    Progress s directory out start (paths ++ [path])
      (translateFile s canceled files path (destination directory path)).1 := by
  have hfiles := h.noLinks hlinks
  obtain ⟨input, node, made, content, files', -, hlocate, hcreate, hcontent, hsuccess, hfinal⟩ :=
    exists_of_translateFile hnone
  -- the output is made in the directory of the batch under the base name, where there is no
  -- directory
  obtain ⟨hproper, rfl, rfl, hmade, target, htarget, hfile, hplace⟩ :=
    create_join hfiles (hdirectory.again_directory h.keeps hfiles) hcreate
  have hinput := leadsTo_of_locate hfiles hlocate
  -- the input has its base name as its last name too, and so it is still what it was at the start
  obtain ⟨⟨above, rfl⟩, hnode⟩ : (∃ above, input = above ++ [Path.base path]) ∧
      files.node? input = some node := hinput.last hproper
  have hbefore := (h.node?_concat above hbase).symm.trans hnode
  -- the path of the input has led to the same place at the start
  have hstart : start.LeadsTo path (.found (above ++ [Path.base path]) node) := by
    refine hinput.again_node h.kept hlinks hbefore ?_
    intro hd
    cases node with
    | directory => rfl
    | _ => cases hd
  have hne := h.ne_destination hlinks hsame hstart hbefore htarget hfile hplace
  have hnil : out ++ [Path.base path] ≠ [] := by simp
  -- making the output has not touched the input, so what is read is what was there
  obtain rfl : node = .file content := by
    rw [node?_put files hnil, if_neg hne, hnode] at hcontent
    exact Option.some.inj hcontent
  rw [put_put] at hfinal
  rw [hfinal]
  refine h.put hlinks hbase hmade ⟨hproper, hstart, hne, hsuccess, ?_⟩
  -- the path of the destination leads to the file that has been written
  rw [← hplace]
  apply htarget.again_node (keeps_put (hplace ▸ hnil) (hplace ▸ hmade) _)
    (hfiles.put (hplace ▸ hnil) (by simp))
  · rw [node?_put files (hplace ▸ hnil), if_pos rfl]
  · simp [hfile]

end Progress

/-! ### The run -/

section Run

variable {b : BatchState}

/-- A failure stays. -/
theorem failure_foldl_step
    (h : (paths.foldl (BatchState.step s canceled directory) b).failure = none) :
    b.failure = none := by
  induction paths generalizing b with
  | nil => exact h
  | cons path rest ih => exact (Option.or_eq_none_iff.1 (ih h)).1

/-- With distinct base names, the name of an input is none of those before it. -/
theorem not_mem_of_nodup_concat {rest : List Text}
    (hbases : ((paths ++ [path] ++ rest).map Path.base).Nodup) :
    Path.base path ∉ paths.map Path.base := by
  intro hmem
  have hfront : ((paths ++ [path]).map Path.base).Nodup :=
    hbases.sublist ((List.sublist_append_left _ rest).map Path.base)
  rw [List.map_append, List.nodup_append] at hfront
  exact hfront.2.2 _ hmem _ (by simp) rfl

/-- A run that goes on without a failure goes on translating its inputs. -/
theorem progress_foldl_step {rest : List Text} (hlinks : start.NoLinks)
    (hdirectory : start.LeadsTo directory (.found out .directory))
    (hbases : ((paths ++ rest).map Path.base).Nodup)
    (hsame : ∀ path ∈ rest, start.samePath path (destination directory path) = false)
    (h : Progress s directory out start paths b.files)
    (hnone : (rest.foldl (BatchState.step s canceled directory) b).failure = none) :
    Progress s directory out start (paths ++ rest)
      (rest.foldl (BatchState.step s canceled directory) b).files := by
  induction rest generalizing paths b with
  | nil => rwa [List.append_nil]
  | cons path rest ih =>
    rw [List.append_cons] at hbases ⊢
    rw [List.forall_mem_cons] at hsame
    have hnew : Path.base path ∉ paths.map Path.base := not_mem_of_nodup_concat hbases
    -- a failure would stay to the end
    have hstep : (b.step s canceled directory path).failure = none := failure_foldl_step hnone
    have hfirst := (Option.or_eq_none_iff.1 hstep).2
    exact ih hbases hsame.2 (h.step hlinks hdirectory hnew hsame.1 hfirst) hnone

/-- A run from the start without a failure has translated all its inputs. -/
theorem progress_run (hlinks : start.NoLinks)
    (hdirectory : start.LeadsTo directory (.found out .directory))
    (hbases : (paths.map Path.base).Nodup)
    (hsame : ∀ path ∈ paths, start.samePath path (destination directory path) = false)
    (hnone : (paths.foldl (BatchState.step s canceled directory)
      { files := start }).failure = none) :
    Progress s directory out start paths
      (paths.foldl (BatchState.step s canceled directory) { files := start }).files := by
  have hrefl : Progress s directory out start [] start := .refl
  exact progress_foldl_step hlinks hdirectory (by rwa [List.nil_append]) hsame hrefl hnone

/-- Every failure of a batch has a status that is not success. -/
theorem exitStatus_foldl_step (hb : ∀ failure ∈ b.failure, exitStatus (some failure) ≠ 0)
    {failure : Failure}
    (h : (paths.foldl (BatchState.step s canceled directory) b).failure = some failure) :
    exitStatus (some failure) ≠ 0 := by
  induction paths generalizing b with
  | nil => exact hb failure h
  | cons path rest ih =>
    refine ih ?_ h
    intro first hfirst
    rcases Option.or_eq_some_iff.1 hfirst with hold | ⟨-, hnew⟩
    · exact hb first hold
    · exact exitStatus_translateFile hnew

end Run

/-! ### The order of the inputs

Whether an input can be translated and what is then written for it is seen from the tree at the
start, so that the inputs of a batch may be taken in any order. -/

/-- An input of a batch that can be translated: in the tree at the start it is a file and not its
own destination, which is no directory. -/
structure Ready (s : Settings) (directory : Text) (out : Place) (start : Files) (path : Text)
    (input : Place) (content : Text) : Prop where
  proper : Path.IsProper (Path.base path)
  source : start.LeadsTo path (.found input (.file content))
  ne : input ≠ out ++ [Path.base path]
  success : (translateInput s false path (.ok content) {}).failure = none
  target : ∃ target, start.LeadsTo (destination directory path) target ∧
    target.isDirectory = false ∧ target.place = out ++ [Path.base path]

section Order

variable {input : Place} {content : Text}

/-- What has been translated could have been translated at the start. -/
theorem Progress.ready (h : Progress s directory out start paths files) (hlinks : start.NoLinks)
    (hdone : Done s directory out start files path input content) :
    Ready s directory out start path input content := by
  refine ⟨hdone.proper, hdone.source, hdone.ne, hdone.success, ?_⟩
  obtain ⟨target, htarget, hplace, hnode⟩ := hdone.output.again h.kept hlinks
  refine ⟨target, htarget, ?_, hplace⟩
  rw [Target.isDirectory_eq_false_iff, hnode]
  -- a directory at the destination would still be there in place of the output
  intro hdirectory
  have hstill := (h.directories (out ++ [Path.base path])).2 hdirectory
  cases hstill.symm.trans (hdone.output.leads.node?_place rfl)

/-- An input that is ready is translated, whatever other inputs have been translated before. -/
theorem Ready.translateFile_eq_none (hready : Ready s directory out start path input content)
    (h : Progress s directory out start paths files) (hlinks : start.NoLinks)
    (hbase : Path.base path ∉ paths.map Path.base) :
    (translateFile s false files path (destination directory path)).2.2 = none := by
  have hfiles := h.noLinks hlinks
  obtain ⟨⟨above, rfl⟩, hnode⟩ : (∃ above, input = above ++ [Path.base path]) ∧
      start.node? input = some (.file content) := hready.source.last hready.proper
  -- no other input has its base name, so that nothing was written here
  have hinput : files.node? (above ++ [Path.base path]) = some (.file content) :=
    (h.node?_concat above hbase).trans hnode
  have hlocate : files.locate path = .ok (above ++ [Path.base path], .file content) :=
    (hready.source.again_node h.keeps hfiles hinput (by simp [Target.isDirectory])).locate_eq
  obtain ⟨target, htarget, hfile, hplace⟩ := hready.target
  obtain ⟨other, hother, hsame, hfound⟩ := htarget.again h.keeps hfiles
  have hcreate : files.create (destination directory path) =
      .ok (files.put (out ++ [Path.base path]) (.file []), out ++ [Path.base path]) := by
    -- neither was anything written at the destination, so there is still no directory
    have hnone : other.isDirectory = false := by
      have hnode : other.node? = target.node? := by
        rw [hfound, hfile, if_neg (by decide), hplace, h.node?_concat out hbase, ← hplace]
        exact htarget.leads.node?_place hfile
      rw [Target.isDirectory_eq_false_iff, hnode, ← Target.isDirectory_eq_false_iff]
      exact hfile
    rw [hother.create_eq hfiles hnone, hsame, hplace]
  -- making the output leaves the input alone
  have hcontent : sourceAt (files.put (out ++ [Path.base path]) (.file []))
      (above ++ [Path.base path]) path = .ok content := by
    rw [sourceAt, contentAt, node?_put files (by simp), if_neg hready.ne, hinput]
    rfl
  rw [translateFile, hlocate, hcreate]
  dsimp only
  rw [hcontent]
  exact hready.success

/-- Inputs that are ready are all translated. -/
theorem foldl_step_of_ready {rest : List Text} {b : BatchState} (hlinks : start.NoLinks)
    (hdirectory : start.LeadsTo directory (.found out .directory))
    (hbases : ((paths ++ rest).map Path.base).Nodup)
    (hsame : ∀ path ∈ rest, start.samePath path (destination directory path) = false)
    (hready : ∀ path ∈ rest, ∃ input content, Ready s directory out start path input content)
    (h : Progress s directory out start paths b.files) (hnone : b.failure = none) :
    (rest.foldl (BatchState.step s false directory) b).failure = none := by
  induction rest generalizing paths b with
  | nil => exact hnone
  | cons path rest ih =>
    rw [List.append_cons] at hbases
    rw [List.forall_mem_cons] at hsame hready
    have hnew : Path.base path ∉ paths.map Path.base := not_mem_of_nodup_concat hbases
    obtain ⟨input, content, hfirst⟩ := hready.1
    have hdone := hfirst.translateFile_eq_none h hlinks hnew
    have hstep : (b.step s false directory path).failure = none := by
      rw [BatchState.step, hnone]
      exact hdone
    have hprogress : Progress s directory out start (paths ++ [path])
        (b.step s false directory path).files := by
      rw [BatchState.step, hnone]
      exact h.step hlinks hdirectory hnew hsame.1 hdone
    exact ih hbases hsame.2 hready.2 hprogress hstep

/-- A run from the start translates all its inputs if they are ready. -/
theorem failure_run_of_ready (hlinks : start.NoLinks)
    (hdirectory : start.LeadsTo directory (.found out .directory))
    (hbases : (paths.map Path.base).Nodup)
    (hsame : ∀ path ∈ paths, start.samePath path (destination directory path) = false)
    (hready : ∀ path ∈ paths, ∃ input content, Ready s directory out start path input content) :
    (paths.foldl (BatchState.step s false directory) { files := start }).failure = none := by
  have hrefl : Progress s directory out start [] start := .refl
  have hstart : ({ files := start } : BatchState).failure = none := rfl
  exact foldl_step_of_ready hlinks hdirectory (by rwa [List.nil_append]) hsame hready hrefl hstart

/-- Two runs that have translated the same inputs have left the same at every place. -/
theorem Progress.node?_eq {others : List Text} {files' : Files}
    (h : Progress s directory out start paths files)
    (h' : Progress s directory out start others files')
    (hmem : ∀ path, path ∈ paths ↔ path ∈ others) (place : Place) :
    files'.node? place = files.node? place := by
  by_cases hplace : ∃ path ∈ paths, place = out ++ [Path.base path]
  · obtain ⟨path, hpath, rfl⟩ := hplace
    obtain ⟨input, content, hdone⟩ := h.done path hpath
    obtain ⟨input', content', hdone'⟩ := h'.done path ((hmem path).1 hpath)
    -- both runs have read the same input, the one at the start
    cases hdone.source.unique hdone'.source
    have hnode := hdone.output.leads.node?_place rfl
    exact (hdone'.output.leads.node?_place rfl).trans hnode.symm
  · have hother : ∀ path ∈ paths, place ≠ out ++ [Path.base path] := by
      intro path hpath heq
      exact hplace ⟨path, hpath, heq⟩
    rw [h.unchanged place hother, h'.unchanged place fun path hpath => hother path
      ((hmem path).2 hpath)]

/-- If inputs are translated in one order, then they are in every order, with the same outcome. -/
theorem foldl_step_perm {others : List Text} (hlinks : start.NoLinks)
    (hdirectory : start.LeadsTo directory (.found out .directory))
    (hbases : (paths.map Path.base).Nodup)
    (hsame : ∀ path ∈ paths, start.samePath path (destination directory path) = false)
    (hperm : paths.Perm others)
    (hnone : (paths.foldl (BatchState.step s canceled directory)
      { files := start }).failure = none) :
    (others.foldl (BatchState.step s canceled directory) { files := start }).failure = none ∧
      ∀ place,
        (others.foldl (BatchState.step s canceled directory) { files := start }).files.node? place =
          (paths.foldl (BatchState.step s canceled directory) { files := start }).files.node?
            place := by
  have hprogress := progress_run hlinks hdirectory hbases hsame hnone
  have hbases' : (others.map Path.base).Nodup := (hperm.map Path.base).nodup hbases
  have hsame' : ∀ path ∈ others, start.samePath path (destination directory path) = false :=
    fun path hpath => hsame path (hperm.mem_iff.2 hpath)
  -- that the inputs are ready is seen from the first run
  have hready : ∀ path ∈ others, ∃ input content,
      Ready s directory out start path input content := by
    intro path hpath
    obtain ⟨input, content, hdone⟩ := hprogress.done path (hperm.mem_iff.2 hpath)
    exact ⟨input, content, hprogress.ready hlinks hdone⟩
  cases paths with
  | nil =>
    rw [← hperm.nil_eq]
    exact ⟨rfl, fun _ => rfl⟩
  | cons first rest =>
    -- a run that is cancelled fails at its first input
    obtain rfl : canceled = false := by
      rw [List.foldl_cons] at hnone
      have hfirst : (translateFile s (canceled || false) start first
          (destination directory first)).2.2 = none := failure_foldl_step hnone
      obtain ⟨-, -, -, -, -, hcanceled, -⟩ := exists_of_translateFile hfirst
      simpa using hcanceled
    have hothers := failure_run_of_ready hlinks hdirectory hbases' hsame' hready
    have hprogress' := progress_run hlinks hdirectory hbases' hsame' hothers
    exact ⟨hothers, hprogress.node?_eq hprogress' fun path => hperm.mem_iff⟩

end Order

/-! ### The outcome -/

/-- What has become of a path of a batch: its content is still there, and its destination has what
translating this input alone writes, which is the translation and a line break. -/
structure Settled (s : Settings) (directory : Text) (out : Place) (before after : Files)
    (path : Text) (input : Place) (content : Text) : Prop where
  original : before.node? input = some (.file content)
  /-- The path may go through a directory that is made first, and then it led nowhere before. -/
  led : ∀ found, before.locate path = .ok found → found = (input, .file content)
  leads : after.locate path = .ok (input, .file content)
  success : (translateInput s false path (.ok content) {}).failure = none
  text : (translateInput s false path (.ok content) {}).sink.taken.toList =
    ((Translator.new (s.translatorOptions path) {} {}).translate content).1.flush.output ++ [0x0A]
  output : after.locate (destination directory path) = .ok (out ++ [Path.base path],
    .file (translateInput s false path (.ok content) {}).sink.taken.toList)

/-- What a batch has done to a tree of files: all its paths are settled, and all places but their
destinations are as they were, or new directories on the way to the directory of the batch. -/
structure Complete (s : Settings) (directory : Text) (out : Place) (paths : List Text)
    (before after : Files) : Prop where
  located : after.locate directory = .ok (out, .directory)
  settled : ∀ path ∈ paths, ∃ input content,
    Settled s directory out before after path input content
  unchanged : ∀ place, (∀ path ∈ paths, place ≠ out ++ [Path.base path]) →
    after.node? place = before.node? place ∨ NewDirectory directory before after place

section Outcome

variable {before : Files}

/-- The place of an input is no destination: one with its base name could only be its own. -/
theorem Progress.node?_input {input : Place} {content : Text}
    (h : Progress s directory out start paths files)
    (hdone : Done s directory out start files path input content) :
    files.node? input = some (.file content) := by
  obtain ⟨⟨above, rfl⟩, hnode⟩ : (∃ above, input = above ++ [Path.base path]) ∧
      start.node? input = some (.file content) := hdone.source.last hdone.proper
  rw [h.unchanged, hnode]
  intro other _ heq
  have hlast : Path.base path = Path.base other := by simpa using (List.append_inj' heq rfl).2
  exact hdone.ne (heq.trans (by rw [hlast]))

/-- An input that has been translated is settled.  The tree before is the one in which the directory
of the batch has not yet been made. -/
theorem Progress.settled (hlinks : before.NoLinks) (hgrown : Grown directory before start)
    {input : Place} {content : Text}
    (h : Progress { s with filename := [] } directory out start paths files)
    (hdone : Done { s with filename := [] } directory out start files path input content) :
    Settled s directory out before files path input content := by
  have hstart := hgrown.noLinks hlinks
  have hfiles := h.noLinks hstart
  -- a file is never new
  have hbefore : before.node? input = some (.file content) := by
    have hnode : start.node? input = some (.file content) := (hdone.source.last hdone.proper).2
    rcases hgrown.node input with hsame | hnew
    · exact hsame.symm.trans hnode
    · cases hnode.symm.trans hnew.after
  obtain ⟨hsuccess, htaken⟩ := translateInput_filename s [] hdone.success
  refine ⟨hbefore, ?_, ?_, hsuccess, taken_translateInput hsuccess, ?_⟩
  · -- what the path led to before, it leads to in the tree with more directories
    rintro ⟨place, node⟩ hlocate
    have hleads := leadsTo_of_locate hlinks hlocate
    obtain ⟨other, hother, hplace, -⟩ := hleads.again hgrown.keeps hstart
    cases hother.unique hdone.source
    obtain rfl : input = place := hplace
    have hnode : before.node? input = some node := (hleads.last hdone.proper).2
    rw [hbefore, Option.some.injEq] at hnode
    rw [hnode]
  · have hnode := h.node?_input hdone
    exact (hdone.source.again_node h.keeps hfiles hnode (by simp [Target.isDirectory])).locate_eq
  · rw [← htaken]
    exact hdone.output.locate_eq

/-- A batch whose settings leave the file name for diagnostics open is complete when all its inputs
have been translated. -/
theorem Progress.complete (hlinks : before.NoLinks) (hgrown : Grown directory before start)
    (hdirectory : start.LeadsTo directory (.found out .directory))
    (h : Progress { s with filename := [] } directory out start paths files) :
    Complete s directory out paths before files := by
  have hstart := hgrown.noLinks hlinks
  have hfiles := h.noLinks hstart
  refine ⟨(hdirectory.again_directory h.keeps hfiles).locate_eq, ?_, ?_⟩
  · intro path hpath
    obtain ⟨input, content, hdone⟩ := h.done path hpath
    exact ⟨input, content, h.settled hlinks hgrown hdone⟩
  · intro place hother
    have hsame := h.unchanged place hother
    -- what no output has changed is as it was, or a directory that was made for the batch
    rcases hgrown.node place with hold | ⟨hbefore, hafter, front, hfront, hlocate⟩
    · exact .inl (hsame.trans hold)
    · have hleads := leadsTo_of_locate hstart hlocate
      have hagain := hleads.again_directory h.keeps hfiles
      exact .inr ⟨hbefore, hsame.trans hafter, front, hfront, hagain.locate_eq⟩

end Outcome

/-! ### The command -/

section Arguments

variable {w : World} {arguments : List Text} {p : ParsedArguments}

/-- A batch whose inputs are accepted translates them one by one, each under its own name. -/
theorem batch_of_accepted (hmade : w.files.makeDirectories directory = .ok files)
    (haccepted : refusal? files directory {} paths = none) :
    (batch s w directory paths).1.files =
        (paths.foldl (BatchState.step { s with filename := [] } w.canceled directory)
          { files }).files ∧
      (batch s w directory paths).2 =
        (paths.foldl (BatchState.step { s with filename := [] } w.canceled directory)
          { files }).failure := by
  unfold batch
  rw [hmade]
  dsimp only
  rw [haccepted]
  exact ⟨rfl, rfl⟩

/-- A batch without a failure has made its directory and accepted its inputs. -/
theorem accepted_of_batch (h : (batch s w directory paths).2 = none) :
    ∃ start, w.files.makeDirectories directory = .ok start ∧
      refusal? start directory {} paths = none := by
  unfold batch at h
  split at h
  · cases h
  · rename_i start hmade
    split at h
    · cases h
    · rename_i haccepted
      exact ⟨start, hmade, haccepted⟩

/-- A batch without a failure is complete. -/
theorem complete_batch (hlinks : w.files.NoLinks) (h : (batch s w directory paths).2 = none) :
    ∃ out, Complete s directory out paths w.files (batch s w directory paths).1.files := by
  obtain ⟨start, hmade, haccepted⟩ := accepted_of_batch h
  obtain ⟨hgrown, out, hdirectory⟩ := makeDirectories_grown hlinks hmade
  obtain ⟨-, hbases, hsame⟩ := refusal?_eq_none_iff.1 haccepted
  obtain ⟨hfiles, hfailure⟩ := batch_of_accepted (s := s) hmade haccepted
  rw [hfailure] at h
  rw [hfiles]
  have hprogress := progress_run (hgrown.noLinks hlinks) hdirectory hbases hsame h
  exact ⟨out, hprogress.complete hlinks hgrown hdirectory⟩

/-- The order of the inputs does not matter: a batch that succeeds in one order succeeds in every
order, and leaves the same at every place. -/
theorem batch_perm {others : List Text} (hlinks : w.files.NoLinks) (hperm : paths.Perm others)
    (h : (batch s w directory paths).2 = none) :
    (batch s w directory others).2 = none ∧ ∀ place,
      (batch s w directory others).1.files.node? place =
        (batch s w directory paths).1.files.node? place := by
  obtain ⟨start, hmade, haccepted⟩ := accepted_of_batch h
  obtain ⟨hgrown, out, hdirectory⟩ := makeDirectories_grown hlinks hmade
  obtain ⟨-, hbases, hsame⟩ := refusal?_eq_none_iff.1 haccepted
  have hothers : refusal? start directory {} others = none := by
    refine refusal?_eq_none_iff.2 ⟨fun _ _ => rfl, (hperm.map Path.base).nodup hbases, ?_⟩
    intro path hpath
    exact hsame path (hperm.mem_iff.2 hpath)
  obtain ⟨hfiles, hfailure⟩ := batch_of_accepted (s := s) hmade haccepted
  obtain ⟨hfiles', hfailure'⟩ := batch_of_accepted (s := s) hmade hothers
  rw [hfailure] at h
  rw [hfiles, hfiles', hfailure']
  exact foldl_step_perm (hgrown.noLinks hlinks) hdirectory hbases hsame hperm h

/-- A batch that fails does not exit with success. -/
theorem exitStatus_batch {failure : Failure} (h : (batch s w directory paths).2 = some failure) :
    exitStatus (some failure) ≠ 0 := by
  have husage : usageStatus ≠ 0 := by decide
  unfold batch at h
  split at h
  · cases h
    exact husage
  · split at h
    · rename_i hrefused
      cases h
      rwa [exitStatus, status_refusal? hrefused]
    · exact exitStatus_foldl_step (by simp) h

/-- Refused inputs leave the files as they are after the directory has been made. -/
theorem batch_of_refused (hmade : w.files.makeDirectories directory = .ok files)
    (hrefused : ¬(paths.map Path.base).Nodup ∨
      ∃ path ∈ paths, files.samePath path (destination directory path) = true) :
    (batch s w directory paths).1.files = files ∧
      exitStatus (batch s w directory paths).2 = usageStatus := by
  have hsome : refusal? files directory {} paths ≠ none := by
    rw [Ne, refusal?_eq_none_iff]
    rintro ⟨-, hbases, hsame⟩
    rcases hrefused with hbase | ⟨path, hpath, hown⟩
    · exact hbase hbases
    · rw [hsame path hpath] at hown
      cases hown
  obtain ⟨failure, hfailure⟩ := Option.ne_none_iff_exists'.1 hsome
  unfold batch
  rw [hmade]
  dsimp only
  rw [hfailure]
  refine ⟨rfl, ?_⟩
  rw [exitStatus, status_refusal? hfailure]
  rfl

theorem version_not_batch : ∀ f ∈ flagsOf .batch, Text.utf8 f.name ≠ Text.utf8 "version" := by
  decide

/-- The command asks for paths, and then goes on with its settings. -/
theorem runCommand_batch (hread : ParsedArguments.ofList (flagsOf .batch) arguments = .ok p) :
    runCommand .batch w arguments =
      (countFault? .batch p.others).elim (withSettings .batch w p)
        fun message => (w, some (.usage message)) := by
  have hversion := ParsedArguments.get?_ofList_of_unknown hread version_not_batch
  rw [runCommand, hread]
  dsimp only
  rw [hversion, if_neg (by simp)]
  cases countFault? .batch p.others <;> rfl

/-- With its settings loaded, the command is the batch that its arguments ask for, on the same
files. -/
theorem withSettings_batch
    (hload : Settings.load w.files w.environment (p.text "config") p.layer = .ok s)
    (houtput : requiredFault? .batch p = none) :
    ∃ w', w'.files = w.files ∧
      withSettings .batch w p = batch s w' (p.text "output") p.others := by
  refine ⟨if s.file.isEmpty then w
    else w.log (leastLevel s) [⟨.debug, "using config file", [("path", .text s.file)]⟩], ?_, ?_⟩
  · split <;> rfl
  · rw [withSettings, hload]
    dsimp only
    rw [houtput]
    rfl

/-- The arguments ask for a batch of paths into a directory, with settings that can be loaded. -/
def Asks (w : World) (arguments : List Text) (s : Settings) (directory : Text)
    (paths : List Text) : Prop :=
  ∃ p, ParsedArguments.ofList (flagsOf .batch) (find arguments).2 = .ok p ∧
    Settings.load w.files w.environment (p.text "config") p.layer = .ok s ∧
    p.text "output" = directory ∧ p.others = paths

/-- A command that exits with success is the batch that was asked for. -/
theorem exists_batch_of_exitStatus
    (h : exitStatus (runCommand .batch w (find arguments).2).2 = 0) :
    ∃ s directory paths w', Asks w arguments s directory paths ∧ w'.files = w.files ∧
      runCommand .batch w (find arguments).2 = batch s w' directory paths := by
  have husage : usageStatus ≠ 0 := by decide
  -- every way to stop before the batch has a status of its own
  cases hread : ParsedArguments.ofList (flagsOf .batch) (find arguments).2 with
  | error fault =>
    rw [runCommand, hread] at h
    exact absurd h husage
  | ok p =>
    rw [runCommand_batch hread] at h ⊢
    cases hcount : countFault? .batch p.others with
    | some message =>
      rw [hcount] at h
      exact absurd h husage
    | none =>
      rw [hcount, Option.elim_none] at h
      cases hload : Settings.load w.files w.environment (p.text "config") p.layer with
      | error fault =>
        rw [withSettings, hload] at h
        exact absurd h husage
      | ok s =>
        cases houtput : requiredFault? .batch p with
        | some message =>
          rw [withSettings, hload] at h
          dsimp only at h
          rw [houtput] at h
          exact absurd h husage
        | none =>
          obtain ⟨w', hfiles, hbatch⟩ := withSettings_batch hload houtput
          exact ⟨s, p.text "output", p.others, w', ⟨p, hread, hload, rfl, rfl⟩, hfiles, hbatch⟩

/-- What was asked for is done unless paths or the directory are missing. -/
theorem exists_batch_of_asks (h : Asks w arguments s directory paths) (hpaths : paths ≠ [])
    (hdirectory : directory ≠ []) :
    ∃ w', w'.files = w.files ∧
      runCommand .batch w (find arguments).2 = batch s w' directory paths := by
  obtain ⟨p, hread, hload, rfl, rfl⟩ := h
  have hcount : countFault? .batch p.others = none := by simp [countFault?, hpaths]
  have houtput : requiredFault? .batch p = none := by
    have hgiven : p.flags.get? (Text.utf8 "output") ≠ none := by
      intro hnone
      rw [ParsedArguments.text, hnone] at hdirectory
      exact hdirectory rfl
    simp [requiredFault?, hgiven]
  rw [runCommand_batch hread, hcount]
  exact withSettings_batch hload houtput

/-- The last line for a failure changes no file. -/
theorem run_eq_runCommand (hname : (find arguments).1 = .batch) :
    (run w arguments).1.files = (runCommand .batch w (find arguments).2).1.files ∧
      (run w arguments).2 = exitStatus (runCommand .batch w (find arguments).2).2 := by
  unfold run
  rw [← hname]
  dsimp only
  split
  · rename_i hnone
    rw [hnone]
    exact ⟨rfl, rfl⟩
  · rename_i failure hsome
    rw [hsome]
    exact ⟨rfl, rfl⟩

/-- Without symbolic links, a batch that succeeds leaves at each destination what translating its
input alone writes, and changes nothing else.  A batch that is refused, since two inputs have the
same base name or an input is its own destination, writes no file; at most its directory is made. -/
theorem run_batch (w : World) (arguments : List Text) (hlinks : w.files.NoLinks)
    (hname : (find arguments).1 = .batch) :
    ((run w arguments).2 = 0 → ∃ s directory paths out, Asks w arguments s directory paths ∧
      Complete s directory out paths w.files (run w arguments).1.files) ∧
    ∀ s directory paths files, Asks w arguments s directory paths →
      w.files.makeDirectories directory = .ok files →
      (¬(paths.map Path.base).Nodup ∨
        ∃ path ∈ paths, files.samePath path (destination directory path) = true) →
      (run w arguments).2 = usageStatus ∧ Grown directory w.files (run w arguments).1.files := by
  obtain ⟨hfiles, hstatus⟩ := @run_eq_runCommand w arguments hname
  rw [hfiles, hstatus]
  constructor
  · intro hzero
    obtain ⟨s, directory, paths, w', hasks, hsame, hbatch⟩ := exists_batch_of_exitStatus hzero
    rw [hbatch] at hzero ⊢
    have hnone : (batch s w' directory paths).2 = none := by
      cases hfailure : (batch s w' directory paths).2 with
      | none => rfl
      | some failure =>
        rw [hfailure] at hzero
        exact absurd hzero (exitStatus_batch hfailure)
    obtain ⟨out, hcomplete⟩ := complete_batch (hsame ▸ hlinks) hnone
    exact ⟨s, directory, paths, out, hasks, hsame ▸ hcomplete⟩
  · intro s directory paths files hasks hmade hrefused
    obtain ⟨hgrown, out, hdirectory⟩ := makeDirectories_grown hlinks hmade
    -- without paths nothing would be refused
    have hpaths : paths ≠ [] := by
      rintro rfl
      rcases hrefused with hbases | ⟨path, hpath, -⟩
      · exact hbases List.nodup_nil
      · cases hpath
    obtain ⟨w', hsame, hbatch⟩ := exists_batch_of_asks hasks hpaths hdirectory.ne_nil
    rw [← hsame] at hmade
    obtain ⟨hafter, husage⟩ := batch_of_refused hmade hrefused
    rw [hbatch, hafter, husage]
    exact ⟨rfl, hgrown⟩

/-- The path of one input goes through a directory that the batch makes, so that nothing is found
there before; the other is where the batch is run.  Two paths to the same input are refused. -/
theorem run_batch_through_new_directory :
    let w : World := { files.nodes.entries :=
      [([Text.utf8 "a.sql"], .file (Text.utf8 "CREATE FUNCTION f();")),
        ([Text.utf8 "b.sql"], .file (Text.utf8 "CREATE FUNCTION g() RETURNS int;"))] }
    let accepted := ["batch", "-o", "new/out", "new/../a.sql", "b.sql"].map Text.utf8
    let refused := ["batch", "-o", "new", "a.sql", "new/../a.sql"].map Text.utf8
    w.files.NoLinks ∧ (find accepted).1 = .batch ∧ (run w accepted).2 = 0 ∧
      (∃ s directory paths out, Asks w accepted s directory paths ∧
        Complete s directory out paths w.files (run w accepted).1.files) ∧
      (find refused).1 = .batch ∧ (run w refused).2 = usageStatus ∧
      Grown (Text.utf8 "new") w.files (run w refused).1.files := by
  intro w accepted refused
  have hlinks : w.files.NoLinks := noLinks_of_forall_mem (by simp [w])
  have haccepted : (find accepted).1 = .batch := by decide +kernel
  have hrefused : (find refused).1 = .batch := by decide +kernel
  have hzero : (run w accepted).2 = 0 := by decide +kernel
  -- the second command reads its arguments, and the settings are the defaults
  have hasks : Asks w refused .initial (Text.utf8 "new")
      [Text.utf8 "a.sql", Text.utf8 "new/../a.sql"] := by
    let p : ParsedArguments :=
      { flags.entries := [(Text.utf8 "output", .text (Text.utf8 "new"))]
        others := [Text.utf8 "a.sql", Text.utf8 "new/../a.sql"] }
    have hread : ParsedArguments.ofList (flagsOf .batch) (find refused).2 = .ok p := by
      decide +kernel
    exact ⟨p, hread, by decide +kernel, rfl, rfl⟩
  have hmade : w.files.makeDirectories (Text.utf8 "new") =
      .ok (w.files.put [Text.utf8 "new"] .directory) := by decide +kernel
  have hbases : ¬([Text.utf8 "a.sql", Text.utf8 "new/../a.sql"].map Path.base).Nodup := by
    decide +kernel
  exact ⟨hlinks, haccepted, hzero, (run_batch w accepted hlinks haccepted).1 hzero, hrefused,
    (run_batch w refused hlinks hrefused).2 _ _ _ _ hasks hmade (.inl hbases)⟩

end Arguments

end Command

end SqlStubs
