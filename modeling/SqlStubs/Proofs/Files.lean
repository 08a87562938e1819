import SqlStubs.Proofs.Files.Leads

/-!
# What operations on files change

In a tree without links.  `create_join`: a file that is made under a base name in a directory is in
that directory under that name, and no other place changes.  `makeDirectories_grown`: making a
directory adds directories that its path goes through, and changes nothing else.
-/

namespace SqlStubs

namespace Table

variable {κ α : Type} [DecidableEq κ]

theorem insert_insert (t : Table κ α) (key : κ) (first second : α) :
    (t.insert key first).insert key second = t.insert key second := by
  -- the entry keeps its position, so the two lists are equal and not only alike
  have hput : ∀ entries : List (κ × α),
      put key second (put key first entries) = put key second entries := by
    intro entries
    induction entries with
    | nil => simp [put]
    | cons entry rest ih =>
      obtain ⟨k, v⟩ := entry
      by_cases hk : k = key
      · simp [put, hk]
      · simp [put, hk, ih]
  exact congrArg Table.mk (hput t.entries)

theorem mem_entries_of_get? {t : Table κ α} {key : κ} {value : α} (h : t.get? key = some value) :
    (key, value) ∈ t.entries := by
  obtain ⟨_, _, hentries, -⟩ := List.lookup_eq_some_iff.1 h
  rw [hentries]
  simp

end Table

namespace Files

variable {fs fs' : Files} {path : Text} {place : Place}

/-- A tree has no links if none is among its entries. -/
theorem noLinks_of_forall_mem (h : ∀ entry ∈ fs.nodes.entries, ∀ link, entry.2 ≠ .link link) :
    fs.NoLinks := by
  intro place link hnode
  unfold node? at hnode
  split at hnode
  · cases hnode
  · exact h _ (Table.mem_entries_of_get? hnode) link rfl

/-! ### Putting a node at a place -/

/-- The node that was put at a place last is there. -/
theorem put_put (fs : Files) (place : Place) (first second : Node) :
    (fs.put place first).put place second = fs.put place second := by
  rw [put, put, put, Table.insert_insert]

theorem NoLinks.put (hlinks : fs.NoLinks) (hplace : place ≠ []) {node : Node}
    (hnode : ∀ link, node ≠ .link link) : (fs.put place node).NoLinks := by
  intro other link
  rw [node?_put fs hplace]
  split
  · simpa using hnode link
  · exact hlinks other link

/-- Where no directory is, nothing that is put there takes one away. -/
theorem keeps_put (hplace : place ≠ []) (hdirectory : fs.node? place ≠ some .directory)
    (node : Node) : fs.Keeps (fs.put place node) where
  here := rfl
  directory other hother := by
    have hne : other ≠ place := by
      rintro rfl
      exact hdirectory hother
    rw [node?_put fs hplace, if_neg hne, hother]

/-! ### Reading -/

theorem contentAt_eq_ok {content : Text} (h : fs.contentAt place = .ok content) :
    fs.node? place = some (.file content) := by
  unfold contentAt at h
  split at h
  · rename_i hnode
    cases h
    exact hnode
  · cases h
  · cases h

/-- Paths that are found not to be the same lead to different places. -/
theorem ne_of_samePath_eq_false {a b : Text} {p q : Place} {m n : Node}
    (h : fs.samePath a b = false) (ha : fs.locate a = .ok (p, m)) (hb : fs.locate b = .ok (q, n)) :
    p ≠ q := by
  unfold samePath at h
  rw [ha, hb, Bool.or_eq_false_iff] at h
  exact of_decide_eq_false h.2

/-! ### Making a file -/

/-- Without links, a file is made at the place where its path leads, and that was no directory. -/
theorem create_eq (hlinks : fs.NoLinks) {made : Place} (h : fs.create path = .ok (fs', made)) :
    fs' = fs.put made (.file []) ∧
      ∃ target, LeadsTo fs path target ∧ target.isDirectory = false ∧ target.place = made := by
  unfold create at h
  split at h
  · cases h
  · rename_i hresolve
    cases h
    exact ⟨rfl, _, leadsTo_of_resolve hlinks hresolve, rfl, rfl⟩
  · rename_i hresolve
    cases h
    exact ⟨rfl, _, leadsTo_of_resolve hlinks hresolve, rfl, rfl⟩
  · cases h

/-- Where a path leads to no directory, a file can be made. -/
theorem LeadsTo.create_eq {target : Target} (hlinks : fs.NoLinks) (h : LeadsTo fs path target)
    (hfile : target.isDirectory = false) :
    fs.create path = .ok (fs.put target.place (.file []), target.place) := by
  unfold create
  rw [h.resolve_eq]
  cases target with
  | missing directory name => rfl
  | found place node =>
    cases node with
    | file => rfl
    | directory => cases hfile
    | link link =>
      have hnode : fs.node? place = some (.link link) := h.leads.node?_place hfile
      exact absurd hnode (hlinks place link)

/-- A file that is made under a base name in a directory is there under that name. -/
theorem create_join (hlinks : fs.NoLinks) {directory : Text} {made : Place}
    (hdirectory : LeadsTo fs directory (.found place .directory))
    (h : fs.create (Path.join directory (Path.base path)) = .ok (fs', made)) :
    Path.IsProper (Path.base path) ∧ made = place ++ [Path.base path] ∧
      fs' = fs.put made (.file []) ∧ fs.node? made ≠ some .directory ∧
      ∃ target, LeadsTo fs (Path.join directory (Path.base path)) target ∧
        target.isDirectory = false ∧ target.place = made := by
  obtain ⟨hput, target, htarget, hfile, hmade⟩ := create_eq hlinks h
  have hnode : fs.node? made ≠ some .directory := by
    rw [← hmade, htarget.leads.node?_place hfile]
    cases target with
    | missing => simp [Target.node?]
    | found _ node =>
      rintro ⟨⟩
      cases hfile
  -- the path goes through the directory and then on with the names of the base name
  have hleads := fun hname => hdirectory.join htarget hname
  rcases Path.base_cases path with ⟨hproper, -⟩ | hdot | hdotDot | hslash
  · have hnames := Path.names_of_isName hproper.toIsName
    have hlast := hleads (.inr hnames)
    rw [hnames] at hlast
    have hplace := (hlast.of_isProper hproper (.inl rfl)).1
    exact ⟨hproper, hmade.symm.trans hplace, hput, hnode, target, htarget, hfile, hmade⟩
  -- where the base name is not proper, the path leads to a directory
  · rw [hdot] at hleads
    rw [leads_dot.1 (hleads (.inr rfl))] at hfile
    cases hfile
  · rw [hdotDot] at hleads
    rw [(hleads (.inr rfl)).unique (.up .stop)] at hfile
    cases hfile
  · rw [hslash] at hleads
    rw [leads_nil.1 (hleads (.inl rfl))] at hfile
    cases hfile

/-! ### Making directories -/

/-- At a place there was nothing before, and now there is a directory that a path goes through. -/
structure NewDirectory (path : Text) (fs fs' : Files) (place : Place) : Prop where
  before : fs.node? place = none
  after : fs'.node? place = some .directory
  located : ∃ front, front <+: path ∧ fs'.locate front = .ok (place, .directory)

/-- A tree is another with at most some new directories, all of which a path goes through. -/
structure Grown (path : Text) (fs fs' : Files) : Prop where
  here : fs'.here = fs.here
  node : ∀ place, fs'.node? place = fs.node? place ∨ NewDirectory path fs fs' place

namespace Grown

theorem refl (path : Text) (fs : Files) : Grown path fs fs := ⟨rfl, fun _ => .inl rfl⟩

theorem keeps (h : Grown path fs fs') : fs.Keeps fs' where
  here := h.here
  directory place hplace := by
    rcases h.node place with hsame | hnew
    · rw [hsame, hplace]
    · exact hnew.after

theorem noLinks (h : Grown path fs fs') (hlinks : fs.NoLinks) : fs'.NoLinks := by
  intro place link
  rcases h.node place with hsame | hnew
  · rw [hsame]
    exact hlinks place link
  · rw [hnew.after]
    simp

theorem of_isPrefix {longer : Text} (hpath : path <+: longer) (h : Grown path fs fs') :
    Grown longer fs fs' := by
  refine ⟨h.here, fun place => ?_⟩
  rcases h.node place with hsame | ⟨hbefore, hafter, front, hfront, hlocate⟩
  · exact .inl hsame
  · exact .inr ⟨hbefore, hafter, front, hfront.trans hpath, hlocate⟩

/-- New directories may be added to a tree with new directories. -/
theorem trans {last : Files} (h : Grown path fs fs') (hlast : Grown path fs' last)
    (hlinks : fs'.NoLinks) : Grown path fs last := by
  refine ⟨hlast.here.trans h.here, fun place => ?_⟩
  rcases hlast.node place with hsame | ⟨hbefore, hafter, hlocated⟩
  · rcases h.node place with hfirst | ⟨hbefore, hafter, front, hfront, hlocate⟩
    · exact .inl (hsame.trans hfirst)
    -- a directory of the first step is still found by the same path after the second
    · have hleads := leadsTo_of_locate hlinks hlocate
      have hagain := hleads.again_directory hlast.keeps (hlast.noLinks hlinks)
      exact .inr ⟨hbefore, hsame.trans hafter, front, hfront, hagain.locate_eq⟩
  · rcases h.node place with hfirst | hnew
    · exact .inr ⟨hfirst.symm.trans hbefore, hafter, hlocated⟩
    · -- a place cannot be new twice
      cases hnew.after.symm.trans hbefore

end Grown

/-- Slashes at the end of the path of a directory may be left out. -/
theorem LeadsTo.of_withoutTrailing
    (h : LeadsTo fs (Path.withoutTrailing path) (.found place .directory)) :
    LeadsTo fs path (.found place .directory) := by
  obtain ⟨slashes, hpath, hslashes⟩ := Path.exists_withoutTrailing path
  generalize Path.withoutTrailing path = front at h hpath
  subst hpath
  have hstart : fs.startOf (front ++ slashes) = fs.startOf front := by
    obtain ⟨b, rest, rfl⟩ := List.exists_cons_of_ne_nil h.ne_nil
    rfl
  refine ⟨by simp [h.ne_nil], ?_, ?_⟩
  · have hzero : (0 : UInt8) ∉ slashes := fun hb => absurd (hslashes 0 hb) (by decide)
    simpa [hzero] using h.zero
  · rw [hstart, leads_steps_iff, Path.names_append_slashes front hslashes]
    exact leads_steps_iff.1 h.leads

/-- Making one directory adds it and nothing else, and its path then leads to it. -/
theorem makeDirectory_grown (hlinks : fs.NoLinks) (h : fs.makeDirectory path = .ok fs') :
    Grown path fs fs' ∧ ∃ place, LeadsTo fs' path (.found place .directory) := by
  unfold makeDirectory at h
  dsimp only at h
  generalize hshort :
    (if (Path.withoutTrailing path).isEmpty then path else Path.withoutTrailing path) = short at h
  split at h
  · cases h
  · cases h
  · rename_i directory name hresolve
    cases h
    have hmissing := leadsTo_of_resolve hlinks hresolve
    have hplace : directory ++ [name] ≠ [] := by simp
    have hnone : fs.node? (directory ++ [name]) = none := hmissing.leads.node?_place rfl
    have hkeeps : fs.Keeps (fs.put (directory ++ [name]) .directory) :=
      keeps_put hplace (by simp [hnone]) .directory
    have hnode : (fs.put (directory ++ [name]) .directory).node? (directory ++ [name]) =
        some .directory := by
      rw [node?_put fs hplace, if_pos rfl]
    have hfound := hmissing.again_node hkeeps (hlinks.put hplace (by simp)) hnode (by simp)
    -- slashes at the end were left out, and with them the path leads to the same directory
    have hpath : short <+: path ∧
        LeadsTo (fs.put (directory ++ [name]) .directory) path
          (.found (directory ++ [name]) .directory) := by
      split at hshort
      · subst hshort
        exact ⟨List.prefix_rfl, hfound⟩
      · subst hshort
        obtain ⟨slashes, hpath, -⟩ := Path.exists_withoutTrailing path
        exact ⟨⟨slashes, hpath.symm⟩, hfound.of_withoutTrailing⟩
    refine ⟨⟨rfl, fun other => ?_⟩, _, hpath.2⟩
    by_cases hother : other = directory ++ [name]
    · subst hother
      exact .inr ⟨hnone, hnode, short, hpath.1, hfound.locate_eq⟩
    · rw [node?_put fs hplace, if_neg hother]
      exact .inl rfl

theorem leadsTo_of_isRealDirectory (hlinks : fs.NoLinks) (h : fs.isRealDirectory path = true) :
    ∃ place, LeadsTo fs path (.found place .directory) := by
  unfold isRealDirectory at h
  split at h
  · rename_i hresolve
    exact ⟨_, leadsTo_of_resolve hlinks hresolve⟩
  · cases h

/-- The directories above are made first, if there are any. -/
theorem Grown.of_parent {parent : Text} {c : Prop} [Decidable c]
    {made : Except (Text × FileFault) Files} (hparent : parent <+: path)
    (hmade : c → ∀ fs', made = .ok fs' → Grown parent fs fs')
    (h : (if c then made else .ok fs) = .ok fs') : Grown path fs fs' := by
  split at h
  · rename_i hc
    exact (hmade hc fs' h).of_isPrefix hparent
  · cases h
    exact .refl path fs

/-- Making a directory adds directories that its path goes through, and nothing else. -/
theorem makeDirectories_grown (hlinks : fs.NoLinks) (h : fs.makeDirectories path = .ok fs') :
    Grown path fs fs' ∧ ∃ place, LeadsTo fs' path (.found place .directory) := by
  -- the induction follows the calls for the directories above
  fun_induction makeDirectories fs path generalizing fs' with
  | case1 path place hlocate =>
    -- the directory is there already
    cases h
    exact ⟨.refl path fs, place, leadsTo_of_locate hlinks hlocate⟩
  | case2 | case3 => cases h
  | case4 path _ _ _ _ middle habove made hmade =>
    rename_i ih
    cases h
    have hmiddle : Grown path fs middle :=
      .of_parent (Path.upToLast_isPrefix path) (fun hc _ hok => (ih hc hok).1) habove
    obtain ⟨hgrown, hleads⟩ := makeDirectory_grown (hmiddle.noLinks hlinks) hmade
    exact ⟨hmiddle.trans hgrown (hmiddle.noLinks hlinks), hleads⟩
  | case5 path _ _ _ _ middle habove _ _ hreal =>
    rename_i ih
    cases h
    have hmiddle : Grown path fs middle :=
      .of_parent (Path.upToLast_isPrefix path) (fun hc _ hok => (ih hc hok).1) habove
    exact ⟨hmiddle, leadsTo_of_isRealDirectory (hmiddle.noLinks hlinks) hreal⟩
  | case6 => cases h

end Files

end SqlStubs
