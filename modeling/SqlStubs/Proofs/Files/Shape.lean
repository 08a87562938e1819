import SqlStubs.Proofs.Files

/-!
# What paths lead to while files are written

In any tree, with links or without.  Where a path leads is decided by the directories and the links
on its way.  So while only files are made or written, every path leads to the same place as before
(`SameShape.place?_locate`), and what is read through it changes only with the node at this place
(`SameShape.reads`).  Where nodes are only added, what was found is found again (`Extends.locate`).
-/

namespace SqlStubs

namespace Files

variable {fs fs' : Files} {path content : Text} {place : Place}

/-- A path leads to a place at which there is a file with this content. -/
def Reads (fs : Files) (path content : Text) : Prop :=
  ∃ place node, fs.locate path = .ok (place, node) ∧ fs.contentAt place = .ok content

/-- Two paths lead to the same place. -/
def Meet (fs : Files) (a b : Text) : Prop :=
  ∃ place m n, fs.locate a = .ok (place, m) ∧ fs.locate b = .ok (place, n)

/-! ### What is found is in the tree -/

section Walk

variable {follow : Bool} {links : Nat} {directory : Place} {names : List Text} {target : Target}

/-- Up to the first link, what is found and is no directory is at its place.  From there on it is so
if it is so of what comes after the link. -/
theorem node?_of_walkToLink {onLink : Place → List Text → Except FileFault Target}
    (h : fs.walkToLink follow onLink directory names = .ok target)
    (hdirectory : target.isDirectory = false)
    (honLink : ∀ {directory names}, onLink directory names = .ok target →
      fs.node? target.place = target.node?) : fs.node? target.place = target.node? := by
  fun_induction walkToLink fs follow onLink directory names with
  | case1 =>
    cases h
    cases hdirectory
  | case2 _ _ ih | case3 _ _ _ ih | case7 _ _ _ _ _ _ _ ih => exact ih h
  -- nothing there, a file, or a link that is not followed
  | case5 _ _ _ _ _ _ hnode | case8 _ _ _ _ _ _ _ hnode | case10 _ _ _ _ _ _ _ hnode =>
    cases h
    exact hnode
  | case11 => exact honLink h
  | case4 | case6 | case9 => cases h

/-- What is found and is no directory is at its place, and where something is missing nothing is. -/
theorem node?_of_walk (h : fs.walk follow links directory names = .ok target)
    (hdirectory : target.isDirectory = false) : fs.node? target.place = target.node? := by
  -- each link that is followed leaves one less to follow
  induction links generalizing directory names with
  | zero => exact node?_of_walkToLink h hdirectory nofun
  | succ links ih => exact node?_of_walkToLink h hdirectory fun hlink => ih hlink

theorem node?_of_resolve (h : fs.resolve follow path = .ok target)
    (hdirectory : target.isDirectory = false) : fs.node? target.place = target.node? := by
  unfold resolve at h
  split at h
  · cases h
  · split at h
    · cases h
    · exact node?_of_walk h hdirectory

theorem locate_eq_ok {node : Node} : fs.locate path = .ok (place, node) ↔
    fs.resolve true path = .ok (.found place node) := by
  unfold locate
  split <;> simp_all

end Walk

/-! ### Trees with more nodes -/

/-- A tree has all the nodes of another. -/
structure Extends (fs fs' : Files) : Prop where
  here : fs'.here = fs.here
  node : ∀ place node, fs.node? place = some node → fs'.node? place = some node

namespace Extends

theorem refl (fs : Files) : fs.Extends fs := ⟨rfl, fun _ _ h => h⟩

theorem trans {last : Files} (h : fs.Extends fs') (hlast : fs'.Extends last) : fs.Extends last :=
  ⟨hlast.here.trans h.here, fun place node hnode => hlast.node place node (h.node place node hnode)⟩

/-- A node at a place where nothing is. -/
theorem put (hplace : fs.node? place = none) (node : Node) : fs.Extends (fs.put place node) where
  here := rfl
  node other n hn := by
    have hroot : place ≠ [] := by
      rintro rfl
      cases hplace
    have hne : other ≠ place := by
      rintro rfl
      cases hplace.symm.trans hn
    rw [node?_put fs hroot, if_neg hne, hn]

/-- What is found up to the first link is still found, if it is found from there on. -/
theorem walkToLink (h : fs.Extends fs') {follow : Bool} {directory : Place} {names : List Text}
    {node : Node} {onLink onLink' : Place → List Text → Except FileFault Target}
    (hwalk : fs.walkToLink follow onLink directory names = .ok (.found place node))
    (honLink : ∀ {directory names}, onLink directory names = .ok (.found place node) →
      onLink' directory names = .ok (.found place node)) :
    fs'.walkToLink follow onLink' directory names = .ok (.found place node) := by
  fun_induction Files.walkToLink fs follow onLink directory names with
  | case1 => rw [Files.walkToLink, hwalk]
  | case2 _ _ ih => rw [Files.walkToLink, if_pos rfl, ih hwalk]
  | case3 _ _ _ ih => rw [Files.walkToLink, if_neg (by decide), if_pos rfl, ih hwalk]
  -- nothing is found in these
  | case4 | case5 | case6 | case9 => cases hwalk
  | case7 _ _ _ hdot hdotDot hlength hnode ih =>
    rw [Files.walkToLink, if_neg hdot, if_neg hdotDot, if_neg hlength, h.node _ _ hnode]
    exact ih hwalk
  | case8 _ _ _ hdot hdotDot hlength _ hnode hrest
  | case10 _ _ _ hdot hdotDot hlength _ hnode hrest =>
    rw [Files.walkToLink, if_neg hdot, if_neg hdotDot, if_neg hlength, h.node _ _ hnode, ← hwalk]
    exact if_pos hrest
  | case11 _ _ _ hdot hdotDot hlength _ hnode hrest =>
    rw [Files.walkToLink, if_neg hdot, if_neg hdotDot, if_neg hlength, h.node _ _ hnode]
    dsimp only
    rw [if_neg hrest]
    exact honLink hwalk

/-- What is found is still found there. -/
theorem walk (h : fs.Extends fs') {follow : Bool} {links : Nat} {directory : Place}
    {names : List Text} {node : Node}
    (hwalk : fs.walk follow links directory names = .ok (.found place node)) :
    fs'.walk follow links directory names = .ok (.found place node) := by
  induction links generalizing directory names with
  | zero => exact h.walkToLink hwalk nofun
  | succ links ih => exact h.walkToLink hwalk fun hlink => ih hlink

/-- What a path leads to is still found by it. -/
theorem locate (h : fs.Extends fs') {node : Node} (hlocate : fs.locate path = .ok (place, node)) :
    fs'.locate path = .ok (place, node) := by
  rw [locate_eq_ok] at hlocate ⊢
  unfold resolve at hlocate ⊢
  split at hlocate
  · cases hlocate
  · rename_i hempty
    split at hlocate
    · cases hlocate
    · rename_i hzero
      rw [if_neg hempty, if_neg hzero, h.here]
      exact h.walk hlocate

theorem reads (h : fs.Extends fs') (hreads : fs.Reads path content) : fs'.Reads path content := by
  obtain ⟨place, node, hlocate, hcontent⟩ := hreads
  refine ⟨place, node, h.locate hlocate, ?_⟩
  rw [contentAt, h.node _ _ (contentAt_eq_ok hcontent)]

end Extends

/-- Making a directory takes nothing away. -/
theorem makeDirectory_extends (h : fs.makeDirectory path = .ok fs') : fs.Extends fs' := by
  unfold makeDirectory at h
  dsimp only at h
  split at h
  · cases h
  · cases h
  · rename_i hresolve
    cases h
    exact .put (node?_of_resolve hresolve rfl) .directory

theorem makeDirectories_extends (h : fs.makeDirectories path = .ok fs') : fs.Extends fs' := by
  -- the directories above are made first, if there are any
  have habove : ∀ {c : Prop} [Decidable c] {made : Except (Text × FileFault) Files}
      {middle : Files}, (c → ∀ {fs'}, made = .ok fs' → fs.Extends fs') →
      (if c then made else .ok fs) = .ok middle → fs.Extends middle := by
    intro c _ made middle hmade hmiddle
    split at hmiddle
    · rename_i hc
      exact hmade hc hmiddle
    · cases hmiddle
      exact .refl fs
  fun_induction makeDirectories fs path generalizing fs' with
  | case1 =>
    cases h
    exact .refl fs
  | case2 | case3 | case6 => cases h
  | case4 _ _ _ _ _ middle hmiddle _ hmade =>
    rename_i ih
    cases h
    exact (habove ih hmiddle).trans (makeDirectory_extends hmade)
  | case5 _ _ _ _ _ middle hmiddle =>
    rename_i ih
    cases h
    exact habove ih hmiddle

/-! ### Trees with the same directories and links -/

/-- Two trees have the same directories and links. -/
structure SameShape (fs fs' : Files) : Prop where
  here : fs'.here = fs.here
  directory : ∀ place, fs'.node? place = some .directory ↔ fs.node? place = some .directory
  link : ∀ place target,
    fs'.node? place = some (.link target) ↔ fs.node? place = some (.link target)

/-- The place to which something leads, if it does. -/
def place? : Except FileFault Target → Option Place
  | .ok target => some target.place
  | .error _ => none

/-- At a place there is a file, or nothing. -/
def IsFileOrNone (fs : Files) (place : Place) : Prop :=
  fs.node? place = none ∨ ∃ content, fs.node? place = some (.file content)

theorem IsFileOrNone.ne_nil (h : fs.IsFileOrNone place) : place ≠ [] := by
  rintro rfl
  simp [IsFileOrNone, node?] at h

/-- A file and nothing at all are alike to a walk: it can end there and not go on. -/
theorem place?_walkToLink_of_isFileOrNone {follow : Bool}
    {onLink : Place → List Text → Except FileFault Target} {directory : Place} {name : Text}
    {rest : List Text} (hname : IsStep name) (hplace : fs.IsFileOrNone (directory ++ [name])) :
    place? (fs.walkToLink follow onLink directory (name :: rest)) =
      if rest.isEmpty then some (directory ++ [name]) else none := by
  rw [walkToLink, if_neg hname.ne_dot, if_neg hname.ne_dotDot, if_neg hname.length]
  rcases hplace with hnode | ⟨content, hnode⟩
  · rw [hnode]
    dsimp only
    split <;> rfl
  · rw [hnode]
    dsimp only
    split <;> rfl

namespace SameShape

theorem refl (fs : Files) : fs.SameShape fs := ⟨rfl, fun _ => .rfl, fun _ _ => .rfl⟩

theorem trans {last : Files} (h : fs.SameShape fs') (hlast : fs'.SameShape last) :
    fs.SameShape last :=
  ⟨hlast.here.trans h.here, fun place => (hlast.directory place).trans (h.directory place),
    fun place target => (hlast.link place target).trans (h.link place target)⟩

/-- A file, where there is one or nothing. -/
theorem put (hplace : fs.IsFileOrNone place) (content : Text) :
    fs.SameShape (fs.put place (.file content)) := by
  -- at the place itself there is neither a directory nor a link, before or after
  have hother : ∀ other node, (∀ old, node ≠ .file old) →
      ((fs.put place (.file content)).node? other = some node ↔ fs.node? other = some node) := by
    intro other node hnode
    rw [node?_put fs hplace.ne_nil]
    split
    · rename_i heq
      subst heq
      rcases hplace with hnone | ⟨old, hfile⟩
      · simp [hnone, (hnode content).symm]
      · simp [hfile, (hnode content).symm, (hnode old).symm]
    · rfl
  exact ⟨rfl, fun other => hother other _ (by simp), fun other target => hother other _ (by simp)⟩

/-- Where no directory and no link was, there is none. -/
theorem isFileOrNone (h : fs.SameShape fs') (hplace : fs.IsFileOrNone place) :
    fs'.IsFileOrNone place := by
  cases hnode : fs'.node? place with
  | none => exact .inl hnode
  | some node =>
    cases node with
    | file content => exact .inr ⟨content, hnode⟩
    | directory =>
      rw [IsFileOrNone, (h.directory place).1 hnode] at hplace
      simp at hplace
    | link target =>
      rw [IsFileOrNone, (h.link place target).1 hnode] at hplace
      simp at hplace

/-- Up to the first link a walk leads to the same place, since only directories and links decide
where it goes on. -/
theorem place?_walkToLink (h : fs.SameShape fs') (follow : Bool)
    {onLink onLink' : Place → List Text → Except FileFault Target}
    (honLink : ∀ directory names,
      place? (onLink' directory names) = place? (onLink directory names))
    (directory : Place) (names : List Text) :
    place? (fs'.walkToLink follow onLink' directory names) =
      place? (fs.walkToLink follow onLink directory names) := by
  fun_induction Files.walkToLink fs follow onLink directory names with
  | case1 => rw [Files.walkToLink]
  | case2 _ _ ih => rw [Files.walkToLink, if_pos rfl, ih]
  | case3 _ _ _ ih => rw [Files.walkToLink, if_neg (by decide), if_pos rfl, ih]
  | case4 _ _ _ hdot hdotDot hlength =>
    rw [Files.walkToLink, if_neg hdot, if_neg hdotDot, if_pos hlength]
  | case5 _ _ _ hdot hdotDot hlength hnode hrest =>
    rw [place?_walkToLink_of_isFileOrNone ⟨hdot, hdotDot, hlength⟩ (h.isFileOrNone (.inl hnode)),
      if_pos hrest]
    rfl
  | case6 _ _ _ hdot hdotDot hlength hnode hrest =>
    rw [place?_walkToLink_of_isFileOrNone ⟨hdot, hdotDot, hlength⟩ (h.isFileOrNone (.inl hnode)),
      if_neg hrest]
    rfl
  | case7 _ _ _ hdot hdotDot hlength hnode ih =>
    rw [Files.walkToLink, if_neg hdot, if_neg hdotDot, if_neg hlength, (h.directory _).2 hnode]
    exact ih
  | case8 _ _ _ hdot hdotDot hlength _ hnode hrest =>
    rw [place?_walkToLink_of_isFileOrNone ⟨hdot, hdotDot, hlength⟩
      (h.isFileOrNone (.inr ⟨_, hnode⟩)), if_pos hrest]
    rfl
  | case9 _ _ _ hdot hdotDot hlength _ hnode hrest =>
    rw [place?_walkToLink_of_isFileOrNone ⟨hdot, hdotDot, hlength⟩
      (h.isFileOrNone (.inr ⟨_, hnode⟩)), if_neg hrest]
    rfl
  | case10 _ _ _ hdot hdotDot hlength _ hnode hrest =>
    rw [Files.walkToLink, if_neg hdot, if_neg hdotDot, if_neg hlength, (h.link _ _).2 hnode]
    dsimp only
    rw [if_pos hrest]
  | case11 _ _ _ hdot hdotDot hlength _ hnode hrest =>
    rw [Files.walkToLink, if_neg hdot, if_neg hdotDot, if_neg hlength, (h.link _ _).2 hnode]
    dsimp only
    rw [if_neg hrest]
    exact honLink _ _

/-- A walk through links leads to the same place. -/
theorem place?_walk (h : fs.SameShape fs') (follow : Bool) (links : Nat) (directory : Place)
    (names : List Text) :
    place? (fs'.walk follow links directory names) =
      place? (fs.walk follow links directory names) := by
  induction links generalizing directory names with
  | zero => exact h.place?_walkToLink follow (fun _ _ => rfl) directory names
  | succ links ih => exact h.place?_walkToLink follow ih directory names

/-- Every path leads to the same place. -/
theorem place?_resolve (h : fs.SameShape fs') (follow : Bool) (path : Text) :
    place? (fs'.resolve follow path) = place? (fs.resolve follow path) := by
  unfold resolve
  rw [h.here]
  split
  · rfl
  · split
    · rfl
    · exact h.place?_walk ..

/-- What is read through a path stays the same if the node at its place does. -/
theorem reads (h : fs.SameShape fs')
    (hnode : ∀ place node, fs.locate path = .ok (place, node) → fs'.node? place = fs.node? place)
    (hreads : fs.Reads path content) : fs'.Reads path content := by
  obtain ⟨place, node, hlocate, hcontent⟩ := hreads
  have hfile := (hnode place node hlocate).trans (contentAt_eq_ok hcontent)
  -- the path leads to the same place, where the file still is
  have hplace := h.place?_resolve true path
  rw [locate_eq_ok.1 hlocate] at hplace
  cases hresolve : fs'.resolve true path with
  | error fault =>
    rw [hresolve] at hplace
    cases hplace
  | ok target =>
    rw [hresolve] at hplace
    cases target with
    | found =>
      cases hplace
      exact ⟨place, _, locate_eq_ok.2 hresolve, by rw [contentAt, hfile]⟩
    | missing =>
      cases hplace
      -- there is a file, so it is not missing
      cases (node?_of_resolve hresolve rfl).symm.trans hfile

end SameShape

/-- Where a file is made, there was one before or nothing, and its path leads there. -/
theorem create_eq_ok {made : Place} (h : fs.create path = .ok (fs', made)) :
    fs' = fs.put made (.file []) ∧ fs.IsFileOrNone made ∧
      place? (fs.resolve true path) = some made := by
  unfold create at h
  split at h
  · cases h
  · rename_i hresolve
    cases h
    exact ⟨rfl, .inl (node?_of_resolve hresolve rfl), by rw [hresolve]; rfl⟩
  · rename_i hresolve
    cases h
    exact ⟨rfl, .inr ⟨_, node?_of_resolve hresolve rfl⟩, by rw [hresolve]; rfl⟩
  · cases h

end Files

end SqlStubs
