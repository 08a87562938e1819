import Mathlib.Data.List.Induction
import SqlStubs.Proofs.Files.Path

/-!
# Where paths lead without links

Without symbolic links, where a path leads is decided by the directories on the way and by its last
name (`Leads`).  So a path leads to the same place in any other tree that has these directories, and
there to the node that is at this place now (`LeadsTo.again`).  Going up takes back the name before
it, so that a path may be cleaned up: the path of a name in a directory leads to that name in the
directory, however the path of the directory is written (`LeadsTo.join`).
-/

namespace SqlStubs

namespace Files

/-- No node is a symbolic link. -/
def NoLinks (fs : Files) : Prop := ∀ place target, fs.node? place ≠ some (.link target)

/-- A tree has the directories of another, and the same working directory. -/
structure Keeps (fs fs' : Files) : Prop where
  here : fs'.here = fs.here
  directory : ∀ place, fs.node? place = some .directory → fs'.node? place = some .directory

/-- The place of what a path leads to, whether something is there or not. -/
def Target.place : Target → Place
  | .found place _ => place
  | .missing directory name => directory ++ [name]

/-- The node that a path leads to, if there is one. -/
def Target.node? : Target → Option Node
  | .found _ node => some node
  | .missing _ _ => none

/-- Whether a path leads to a directory. -/
def Target.isDirectory : Target → Bool
  | .found _ .directory => true
  | _ => false

theorem Target.eq_found {target : Target} {place : Place} {node : Node}
    (hplace : target.place = place) (hnode : target.node? = some node) :
    target = .found place node := by
  cases target with
  | found =>
    rw [← hplace, ← Option.some.inj hnode]
    rfl
  | missing => cases hnode

theorem Target.isDirectory_eq_false_iff {target : Target} :
    target.isDirectory = false ↔ target.node? ≠ some .directory := by
  cases target with
  | missing => simp [isDirectory, Target.node?]
  | found place node => cases node <;> simp [isDirectory, Target.node?]

variable {fs fs' : Files} {path : Text} {target : Target} {node : Node}

/-! ### Where names lead -/

/-- A name that is looked up in a directory. -/
structure IsStep (name : Text) : Prop where
  ne_dot : name ≠ Path.dot
  ne_dotDot : name ≠ Path.dotDot
  length : ¬nameLimit < name.length

/-- From a directory, names lead to a target without going through a link. -/
inductive Leads (fs : Files) : (directory : Place) → List Text → Target → Prop
  | stop {directory : Place} : Leads fs directory [] (.found directory .directory)
  | dot {directory : Place} {rest : List Text} {target : Target}
      (others : Leads fs directory rest target) : Leads fs directory (Path.dot :: rest) target
  | up {directory : Place} {rest : List Text} {target : Target}
      (others : Leads fs directory.dropLast rest target) :
      Leads fs directory (Path.dotDot :: rest) target
  | down {directory : Place} {name : Text} {rest : List Text} {target : Target}
      (hname : IsStep name) (hnode : fs.node? (directory ++ [name]) = some .directory)
      (others : Leads fs (directory ++ [name]) rest target) :
      Leads fs directory (name :: rest) target
  | missing {directory : Place} {name : Text} (hname : IsStep name)
      (hnode : fs.node? (directory ++ [name]) = none) :
      Leads fs directory [name] (.missing directory name)
  | file {directory : Place} {name content : Text} (hname : IsStep name)
      (hnode : fs.node? (directory ++ [name]) = some (.file content)) :
      Leads fs directory [name] (.found (directory ++ [name]) (.file content))

section Leads

variable {directory : Place} {names : List Text}

/-- Where no link is met it does not matter how links would be followed. -/
theorem Leads.walkToLink_eq (h : Leads fs directory names target) (follow : Bool)
    (onLink : Place → List Text → Except FileFault Target) :
    fs.walkToLink follow onLink directory names = .ok target := by
  induction h with
  | stop => rw [walkToLink]
  | dot _ ih => rw [walkToLink, if_pos rfl, ih]
  | up _ ih => rw [walkToLink, if_neg (by decide), if_pos rfl, ih]
  | down hname hnode _ ih =>
    rw [walkToLink, if_neg hname.ne_dot, if_neg hname.ne_dotDot, if_neg hname.length, hnode]
    exact ih
  | missing hname hnode | file hname hnode =>
    rw [walkToLink, if_neg hname.ne_dot, if_neg hname.ne_dotDot, if_neg hname.length, hnode]
    rfl

/-- Where no link is met it does not matter how many may be followed. -/
theorem Leads.walk_eq (h : Leads fs directory names target) (follow : Bool) (links : Nat) :
    fs.walk follow links directory names = .ok target := by
  cases links with
  | zero => exact h.walkToLink_eq ..
  | succ links => exact h.walkToLink_eq ..

/-- In a tree without links none is met. -/
theorem leads_of_walkToLink (hlinks : fs.NoLinks) {follow : Bool}
    {onLink : Place → List Text → Except FileFault Target}
    (h : fs.walkToLink follow onLink directory names = .ok target) :
    Leads fs directory names target := by
  fun_induction walkToLink fs follow onLink directory names with
  | case1 =>
    cases h
    exact .stop
  | case2 _ _ ih => exact .dot (ih h)
  | case3 _ _ _ ih => exact .up (ih h)
  | case4 => cases h
  | case5 directory name rest hdot hdotDot hlength hnode hrest =>
    cases h
    rw [List.isEmpty_iff.1 hrest]
    exact .missing ⟨hdot, hdotDot, hlength⟩ hnode
  | case6 => cases h
  | case7 directory name rest hdot hdotDot hlength hnode ih =>
    exact .down ⟨hdot, hdotDot, hlength⟩ hnode (ih h)
  | case8 directory name rest hdot hdotDot hlength content hnode hrest =>
    cases h
    rw [List.isEmpty_iff.1 hrest]
    exact .file ⟨hdot, hdotDot, hlength⟩ hnode
  | case9 => cases h
  | case10 _ _ _ _ _ _ _ hnode | case11 _ _ _ _ _ _ _ hnode => exact absurd hnode (hlinks _ _)

/-- Without links, a walk goes where the names lead. -/
theorem leads_of_walk (hlinks : fs.NoLinks) {follow : Bool} {links : Nat}
    (h : fs.walk follow links directory names = .ok target) :
    Leads fs directory names target := by
  cases links with
  | zero => exact leads_of_walkToLink hlinks h
  | succ links => exact leads_of_walkToLink hlinks h

/-- The same names lead to one target only. -/
theorem Leads.unique {other : Target} (h : Leads fs directory names target)
    (hother : Leads fs directory names other) : target = other := by
  have hwalk := h.walk_eq true 0
  rw [hother.walk_eq true 0] at hwalk
  exact (Except.ok.inj hwalk).symm

/-- What is not a directory is the node at its place. -/
theorem Leads.node?_place (h : Leads fs directory names target)
    (hdirectory : target.isDirectory = false) : fs.node? target.place = target.node? := by
  induction h with
  | stop => cases hdirectory
  | dot _ ih | up _ ih | down _ _ _ ih => exact ih hdirectory
  | missing _ hnode | file _ hnode => exact hnode

/-! ### Names after names -/

section Append

variable {front rest : List Text} {middle : Place}

/-- Names lead on from the directory that others lead to. -/
theorem Leads.append (h : Leads fs directory front (.found middle .directory))
    (hrest : Leads fs middle rest target) : Leads fs directory (front ++ rest) target := by
  generalize hfound : Target.found middle .directory = found at h
  induction h with
  | stop =>
    cases hfound
    exact hrest
  | dot _ ih => exact .dot (ih hfound)
  | up _ ih => exact .up (ih hfound)
  | down hname hnode _ ih => exact .down hname hnode (ih hfound)
  | missing | file => cases hfound

/-- Names after which others come lead to a directory. -/
theorem Leads.exists_of_append (hrest : rest ≠ []) (h : Leads fs directory (front ++ rest) target) :
    ∃ middle, Leads fs directory front (.found middle .directory) ∧
      Leads fs middle rest target := by
  induction front generalizing directory with
  | nil => exact ⟨directory, .stop, h⟩
  | cons name front ih =>
    rw [List.cons_append] at h
    generalize hnames : front ++ rest = names at h
    cases h with
    | dot others =>
      obtain ⟨middle, hfront, hlast⟩ := ih (hnames ▸ others)
      exact ⟨middle, .dot hfront, hlast⟩
    | up others =>
      obtain ⟨middle, hfront, hlast⟩ := ih (hnames ▸ others)
      exact ⟨middle, .up hfront, hlast⟩
    | down hname hnode others =>
      obtain ⟨middle, hfront, hlast⟩ := ih (hnames ▸ others)
      exact ⟨middle, .down hname hnode hfront, hlast⟩
    | missing | file => exact absurd (List.append_eq_nil_iff.1 hnames).2 hrest

theorem leads_nil : Leads fs directory [] target ↔ target = .found directory .directory := by
  constructor
  · intro h
    cases h
    rfl
  · rintro rfl
    exact .stop

theorem leads_dot :
    Leads fs directory [Path.dot] target ↔ target = .found directory .directory := by
  constructor
  · intro h
    exact h.unique (.dot .stop)
  · rintro rfl
    exact .dot .stop

/-- A slash at the end of a path changes nothing if the path leads to a directory. -/
theorem leads_steps_iff :
    Leads fs directory (steps path) (.found middle .directory) ↔
      Leads fs directory (Path.names path) (.found middle .directory) := by
  unfold steps
  split
  · constructor
    · intro h
      obtain ⟨place, hfront, hlast⟩ := h.exists_of_append (by simp)
      rwa [leads_dot.1 hlast]
    · intro h
      exact h.append (.dot .stop)
  · rw [List.append_nil]

/-- What a proper name leads to, if at most dots come after it, is in the directory under that
name. -/
theorem Leads.of_isProper {name : Text} (h : Leads fs directory (name :: rest) target)
    (hname : Path.IsProper name) (hrest : rest = [] ∨ rest = [Path.dot]) :
    target.place = directory ++ [name] ∧ fs.node? target.place = target.node? := by
  cases h with
  | dot => exact absurd rfl hname.ne_dot
  | up => exact absurd rfl hname.ne_dotDot
  | down _ hnode others =>
    have htarget : target = .found (directory ++ [name]) .directory := by
      rcases hrest with rfl | rfl
      · exact leads_nil.1 others
      · exact leads_dot.1 others
    rw [htarget]
    exact ⟨rfl, hnode⟩
  | missing _ hnode | file _ hnode => exact ⟨rfl, hnode⟩

end Append

/-- Going up takes back the name before it, so names may be cleaned up on the way to a directory. -/
theorem Leads.foldl_push {absolute : Bool} {place : Place}
    (hroot : absolute = true → directory = [])
    (h : Leads fs directory names (.found place .directory)) :
    Leads fs directory (names.foldl (Path.push absolute) []) (.found place .directory) := by
  -- from the back, as the last name is the one that is pushed
  induction names using List.reverseRecOn generalizing place with
  | nil => exact h
  | append_singleton names name ih =>
    obtain ⟨middle, hfront, hlast⟩ := h.exists_of_append (by simp)
    have hkept := ih hfront
    -- no dot is among the names that are kept, so the last of them is proper or goes up
    have hdot : Path.dot ∉ names.foldl (Path.push absolute) [] := by
      intro hmem
      rcases Path.mem_foldl_push hmem with hmem | ⟨-, hne⟩
      · cases hmem
      · exact hne rfl
    rw [List.foldl_append, List.foldl_cons, List.foldl_nil]
    generalize names.foldl (Path.push absolute) [] = kept at hkept hdot
    unfold Path.push
    cases hlast with
    | dot others =>
      cases others
      rwa [if_pos rfl]
    | down hname hnode others =>
      rw [if_neg hname.ne_dot, if_neg hname.ne_dotDot]
      exact hkept.append (.down hname hnode others)
    | up others =>
      cases others
      rw [if_neg (by decide), if_pos rfl]
      rcases List.eq_nil_or_concat kept with rfl | ⟨front, last, rfl⟩
      · -- there is nothing above the root, and nothing to take back otherwise
        cases hkept
        cases absolute with
        | true =>
          rw [hroot rfl]
          exact .stop
        | false => exact .up .stop
      · rw [List.concat_eq_append] at hkept hdot ⊢
        rw [List.getLast?_concat]
        dsimp only
        split
        -- after a name that goes up, one more does
        · exact hkept.append (.up .stop)
        · rename_i hdotDot
          -- the name before it leads down from `above`, and going up leads back there
          obtain ⟨above, hfront, hname⟩ := hkept.exists_of_append (by simp)
          rw [List.dropLast_concat]
          cases hname with
          | dot => exact absurd (by simp) hdot
          | up => exact absurd rfl hdotDot
          | down _ _ others =>
            cases others
            rwa [List.dropLast_concat]

/-- In a tree with the same directories, names lead to the same place. -/
theorem Leads.again (h : Leads fs directory names target)
    (hkeeps : fs.Keeps fs') (hlinks : fs'.NoLinks) :
    ∃ other, Leads fs' directory names other ∧ other.place = target.place ∧
      other.node? = if target.isDirectory then some .directory else fs'.node? target.place := by
  induction h with
  | stop => exact ⟨_, .stop, rfl, rfl⟩
  | dot _ ih =>
    obtain ⟨other, hothers, hsame⟩ := ih
    exact ⟨other, .dot hothers, hsame⟩
  | up _ ih =>
    obtain ⟨other, hothers, hsame⟩ := ih
    exact ⟨other, .up hothers, hsame⟩
  | down hname hnode _ ih =>
    obtain ⟨other, hothers, hsame⟩ := ih
    exact ⟨other, .down hname (hkeeps.directory _ hnode) hothers, hsame⟩
  | @missing directory name hname | @file directory name _ hname =>
    -- at the last name, whatever is there now is found
    show ∃ other : Target, _ ∧ other.place = directory ++ [name] ∧
      other.node? = fs'.node? (directory ++ [name])
    cases hnode : fs'.node? (directory ++ [name]) with
    | none => exact ⟨_, .missing hname hnode, rfl, rfl⟩
    | some node =>
      cases node with
      | file content => exact ⟨_, .file hname hnode, rfl, rfl⟩
      | directory => exact ⟨_, .down hname hnode .stop, rfl, rfl⟩
      | link link => exact absurd hnode (hlinks _ link)

end Leads

/-! ### Where paths lead -/

/-- Where the names of a path begin. -/
def startOf (fs : Files) (path : Text) : Place := if Path.isAbsolute path then [] else fs.here

/-- A path leads to a target without going through a link. -/
structure LeadsTo (fs : Files) (path : Text) (target : Target) : Prop where
  ne_nil : path ≠ []
  zero : path.contains 0 = false
  leads : Leads fs (fs.startOf path) (steps path) target

/-- Where a path leads without links it is resolved to. -/
theorem LeadsTo.resolve_eq (h : LeadsTo fs path target) (follow : Bool) :
    fs.resolve follow path = .ok target := by
  rw [resolve, if_neg (by simpa using h.ne_nil), h.zero]
  exact h.leads.walk_eq follow linkLimit

theorem leadsTo_of_resolve (hlinks : fs.NoLinks) {follow : Bool}
    (h : fs.resolve follow path = .ok target) : LeadsTo fs path target := by
  unfold resolve at h
  split at h
  · cases h
  · rename_i hne
    split at h
    · cases h
    · rename_i hzero
      exact ⟨by simpa using hne, by simpa using hzero, leads_of_walk hlinks h⟩

theorem LeadsTo.unique {other : Target} (h : LeadsTo fs path target)
    (hother : LeadsTo fs path other) : target = other := h.leads.unique hother.leads

theorem LeadsTo.locate_eq {place : Place} (h : LeadsTo fs path (.found place node)) :
    fs.locate path = .ok (place, node) := by
  rw [locate, h.resolve_eq]

/-- In a tree without links, what is found is where the path leads. -/
theorem leadsTo_of_locate (hlinks : fs.NoLinks) {place : Place}
    (h : fs.locate path = .ok (place, node)) : LeadsTo fs path (.found place node) := by
  unfold locate at h
  split at h
  · cases h
  · cases h
  · rename_i hresolve
    cases h
    exact leadsTo_of_resolve hlinks hresolve

/-- In a tree with the same directories, a path leads to the same place. -/
theorem LeadsTo.again (h : LeadsTo fs path target) (hkeeps : fs.Keeps fs') (hlinks : fs'.NoLinks) :
    ∃ other, LeadsTo fs' path other ∧ other.place = target.place ∧
      other.node? = if target.isDirectory then some .directory else fs'.node? target.place := by
  obtain ⟨other, hleads, hsame⟩ := h.leads.again hkeeps hlinks
  have hstart : fs'.startOf path = fs.startOf path := by
    rw [startOf, startOf, hkeeps.here]
  exact ⟨other, ⟨h.ne_nil, h.zero, hstart ▸ hleads⟩, hsame⟩

theorem LeadsTo.again_directory {place : Place} (h : LeadsTo fs path (.found place .directory))
    (hkeeps : fs.Keeps fs') (hlinks : fs'.NoLinks) :
    LeadsTo fs' path (.found place .directory) := by
  obtain ⟨other, hother, hplace, hnode⟩ := h.again hkeeps hlinks
  rwa [Target.eq_found hplace hnode] at hother

theorem LeadsTo.again_node (h : LeadsTo fs path target) (hkeeps : fs.Keeps fs')
    (hlinks : fs'.NoLinks) (hnode : fs'.node? target.place = some node)
    (hdirectory : target.isDirectory = true → node = .directory) :
    LeadsTo fs' path (.found target.place node) := by
  obtain ⟨other, hother, hplace, hfound⟩ := h.again hkeeps hlinks
  have hsome : other.node? = some node := by
    rw [hfound]
    split
    · rename_i hd
      rw [hdirectory hd]
    · exact hnode
  rwa [Target.eq_found hplace hsome] at hother

/-- What a path leads to has the base name of the path, if that is proper. -/
theorem LeadsTo.last (h : LeadsTo fs path target) (hbase : Path.IsProper (Path.base path)) :
    (∃ above, target.place = above ++ [Path.base path]) ∧ fs.node? target.place = target.node? := by
  obtain ⟨front, hnames⟩ : ∃ front, Path.names path = front ++ [Path.base path] := by
    rcases Path.base_cases path with ⟨-, hfront⟩ | hdot | hdotDot | hslash
    · exact hfront
    · exact absurd hdot hbase.ne_dot
    · exact absurd hdotDot hbase.ne_dotDot
    · exact absurd (hslash ▸ List.mem_singleton_self _) hbase.slash
  have hleads := h.leads
  rw [steps, hnames, List.append_assoc] at hleads
  obtain ⟨above, -, hlast⟩ := hleads.exists_of_append (by simp)
  have hproper := hlast.of_isProper hbase (by split <;> simp)
  exact ⟨⟨above, hproper.1⟩, hproper.2⟩

/-- A path that is cleaned up leads where the names lead that are kept. -/
theorem leads_clean {directory : Place} :
    Leads fs directory (steps (Path.clean path)) target ↔
      Leads fs directory (Path.kept path) target := by
  rw [Path.steps_clean]
  split
  · rename_i hnil
    rw [hnil, leads_dot, leads_nil]
  · rfl

/-- The path of a name in a directory leads to that name in the directory. -/
theorem LeadsTo.join {directory name : Text} {place : Place}
    (hdirectory : LeadsTo fs directory (.found place .directory))
    (h : LeadsTo fs (Path.join directory name) target)
    (hname : Path.names name = [] ∨ Path.names name = [name]) :
    Leads fs place (Path.names name) target := by
  have hjoin : Path.join directory name = Path.clean (directory ++ 0x2F :: name) := by
    rw [Path.join, if_neg (by simpa using hdirectory.ne_nil), List.append_assoc,
      List.singleton_append]
  have habsolute : Path.isAbsolute (directory ++ 0x2F :: name) = Path.isAbsolute directory := by
    obtain ⟨b, rest, rfl⟩ := List.exists_cons_of_ne_nil hdirectory.ne_nil
    rfl
  have hkept : Path.kept (directory ++ 0x2F :: name) =
      (Path.names directory ++ Path.names name).foldl
        (Path.push (Path.isAbsolute directory)) [] := by
    rw [Path.kept, habsolute, Path.names_append]
  have hstart : fs.startOf (Path.clean (directory ++ 0x2F :: name)) = fs.startOf directory := by
    rw [startOf, Path.isAbsolute_clean, habsolute]
    rfl
  have hroot : Path.isAbsolute directory = true → fs.startOf directory = [] := fun h => if_pos h
  have hleads := h.leads
  rw [hjoin, leads_clean, hkept, hstart] at hleads
  have hfront := leads_steps_iff.1 hdirectory.leads
  -- each way to go on from the directory that leads to a directory again may be cleaned up
  have hdone : ∀ other, Leads fs place (Path.names name) (.found other .directory) →
      Leads fs place (Path.names name) target := by
    intro other hother
    rwa [hleads.unique (Leads.foldl_push hroot (hfront.append hother))]
  rcases hname with hnil | hone
  · rw [hnil] at hdone ⊢
    exact hdone place .stop
  · rw [hone] at hdone hleads ⊢
    by_cases hdot : name = Path.dot
    · rw [hdot] at hdone ⊢
      exact hdone place (.dot .stop)
    · by_cases hdotDot : name = Path.dotDot
      · rw [hdotDot] at hdone ⊢
        exact hdone place.dropLast (.up .stop)
      · rw [List.foldl_append, List.foldl_cons, List.foldl_nil, Path.push, if_neg hdot,
          if_neg hdotDot] at hleads
        obtain ⟨middle, hmiddle, hlast⟩ := hleads.exists_of_append (by simp)
        cases hmiddle.unique (hfront.foldl_push hroot)
        exact hlast

end Files

end SqlStubs
