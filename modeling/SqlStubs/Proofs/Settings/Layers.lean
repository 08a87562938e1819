import SqlStubs.Lexer.Quotation
import SqlStubs.Proofs.Flags
import SqlStubs.Proofs.Table
import SqlStubs.Settings.Load

/-!
# What flags and variables say

Loading makes layers of flags and of variables of the environment.  Where no two of them are for the
same key, such a layer has the value of the one flag that is for a key (`get?_layer`), and the text
of the one variable that is named for it (`get?_environmentLayer`).
-/

namespace SqlStubs

/-! ### Flags -/

/-- The key that a flag with a name is for. -/
def keyOfFlag (name : Text) : Text := name.map fun b => if b = 0x2D then 0x5F else b

/-- No two flags are for the same key. -/
def DistinctKeys (flags : List Flag) : Prop :=
  ∀ f ∈ flags, ∀ g ∈ flags,
    keyOfFlag (Text.utf8 f.name) = keyOfFlag (Text.utf8 g.name) → f.name = g.name

instance (flags : List Flag) : Decidable (DistinctKeys flags) :=
  inferInstanceAs (Decidable (∀ f ∈ flags, ∀ g ∈ flags, _ → _))

namespace ParsedArguments

variable {flags : List Flag} {p : ParsedArguments} {arguments : List Text} {key : Text}

/-- A flag that is given several times has one value, and only flags that there are have one. -/
theorem keys_ofList (h : ofList flags arguments = .ok p) :
    p.flags.keys.Nodup ∧ ∀ name ∈ p.flags.keys, ∃ f ∈ flags, Text.utf8 f.name = name := by
  have hnone : (Table.keys ({} : Table Text Value)).Nodup ∧
      ∀ name ∈ Table.keys ({} : Table Text Value), ∃ f ∈ flags, Text.utf8 f.name = name := by
    simp [Table.keys]
  refine parse_induct (P := fun p => p.flags.keys.Nodup ∧
    ∀ name ∈ p.flags.keys, ∃ f ∈ flags, Text.utf8 f.name = name) (fun p f v hf hp => ?_)
    (fun _ _ hp => hp) hnone h
  refine ⟨Table.nodup_keys_insert hp.1, fun name hname => ?_⟩
  obtain rfl | hname := Table.mem_keys_insert.1 hname
  · exact ⟨f, hf, rfl⟩
  · exact hp.2 name hname

/-- Where no two flags are for the same key, the layer has the value of the flag for it. -/
theorem get?_layer (h : ofList flags arguments = .ok p) (hdistinct : DistinctKeys flags) :
    p.layer.get? key = (flags.find? fun f => keyOfFlag (Text.utf8 f.name) = key).bind
      fun f => p.flags.get? (Text.utf8 f.name) := by
  obtain ⟨hnodup, hknown⟩ := keys_ofList h
  -- names that differ have keys that differ, so that no entry takes the place of another
  have hkeys : ((p.flags.entries.map fun e => (keyOfFlag e.1, e.2)).map Prod.fst).Nodup := by
    have hmap : (p.flags.entries.map fun e => (keyOfFlag e.1, e.2)).map Prod.fst =
        p.flags.keys.map keyOfFlag := by
      simp [Table.keys]
    rw [hmap]
    refine List.Nodup.map_on (fun name hname other hother hsame => ?_) hnodup
    obtain ⟨f, hf, rfl⟩ := hknown name hname
    obtain ⟨g, hg, rfl⟩ := hknown other hother
    rw [hdistinct f hf g hg hsame]
  refine Option.ext fun v => ?_
  show (Table.ofList (p.flags.entries.map fun e => (keyOfFlag e.1, e.2))).get? key = some v ↔ _
  rw [Table.get?_ofList_eq_some_iff hkeys, List.mem_map, Option.bind_eq_some_iff]
  constructor
  · rintro ⟨⟨name, v⟩, hmem, heq⟩
    cases heq
    obtain ⟨g, hg, rfl⟩ := hknown name (List.mem_map.2 ⟨_, hmem, rfl⟩)
    obtain ⟨f, hf⟩ : ∃ f, flags.find? (fun f =>
        keyOfFlag (Text.utf8 f.name) = keyOfFlag (Text.utf8 g.name)) = some f := by
      rw [← Option.isSome_iff_exists, List.find?_isSome]
      exact ⟨g, hg, by simp⟩
    -- the flag that is found may be another one of the same name
    have hsame : f.name = g.name :=
      hdistinct f (List.mem_of_find?_eq_some hf) g hg (by simpa using List.find?_some hf)
    refine ⟨f, hf, ?_⟩
    rw [hsame]
    exact (Table.get?_eq_some_iff_mem hnodup).2 hmem
  · rintro ⟨f, hf, hv⟩
    have hkey : keyOfFlag (Text.utf8 f.name) = key := by simpa using List.find?_some hf
    exact ⟨_, (Table.get?_eq_some_iff_mem hnodup).1 hv, by rw [hkey]⟩

end ParsedArguments

/-! ### Variables of the environment -/

section Variables

variable {key name value : Text} {environment : List (Text × Text)}

/-- Where a text is cut at its first point. -/
theorem exists_splitAtFirst?_point_iff (hkey : 0x2E ∉ key) :
    (∃ after, Text.splitAtFirst? [0x2E] name = some (key, after)) ↔ key ++ [0x2E] <+: name := by
  constructor
  · rintro ⟨after, h⟩
    exact ⟨after, Lexer.splitAtFirst?_eq h⟩
  · rintro ⟨after, rfl⟩
    refine ⟨after, ?_⟩
    induction key with
    | nil => simp [Text.splitAtFirst?]
    | cons b key ih =>
      rw [List.mem_cons, not_or] at hkey
      rw [List.cons_append, List.cons_append, Text.splitAtFirst?, ih hkey.2, if_neg]
      · rfl
      · simpa using hkey.1

theorem splitAtFirst?_point_eq_none_iff :
    Text.splitAtFirst? [0x2E] name = none ↔ 0x2E ∉ name := by
  constructor
  · intro hnone hmem
    obtain ⟨before, after, rfl, hbefore⟩ := List.eq_append_cons_of_mem hmem
    -- the text is cut before its first point, and there is one
    have hprefix : before ++ [0x2E] <+: before ++ 0x2E :: after := ⟨after, by simp⟩
    obtain ⟨_, hsplit⟩ := (exists_splitAtFirst?_point_iff hbefore).2 hprefix
    cases hnone.symm.trans hsplit
  · intro hnot
    cases hsplit : Text.splitAtFirst? [0x2E] name with
    | none => rfl
    | some cut =>
      rw [← Lexer.splitAtFirst?_eq hsplit] at hnot
      simp at hnot

theorem Layer.ofVariable_of_not_mem (h : 0x2E ∉ name) :
    ofVariable name value = (name, .text value) := by
  rw [ofVariable, splitAtFirst?_point_eq_none_iff.2 h]

/-- A name with a point in it makes a mapping of what comes before the point. -/
theorem Layer.exists_ofVariable_of_mem (h : 0x2E ∈ name) :
    ∃ before after, Text.splitAtFirst? [0x2E] name = some (before, after) ∧
      ofVariable name value = (before, .other .mapping) := by
  rw [ofVariable]
  cases hsplit : Text.splitAtFirst? [0x2E] name with
  | none => exact absurd h (splitAtFirst?_point_eq_none_iff.1 hsplit)
  | some cut => exact ⟨cut.1, cut.2, rfl, rfl⟩

theorem Layer.ofVariable_fst_eq_iff (h : 0x2E ∈ name) (hkey : 0x2E ∉ key) :
    (ofVariable name value).1 = key ↔ key ++ [0x2E] <+: name := by
  obtain ⟨before, after, hsplit, heq⟩ := exists_ofVariable_of_mem h
  rw [← exists_splitAtFirst?_point_iff hkey, hsplit, heq]
  simp

namespace Settings

/-- The variables that choose settings, by the rest of their names in lower case. -/
def settingVariables (environment : List (Text × Text)) : List (Text × Text) :=
  environment.filterMap fun (name, value) =>
    if variableMark.isPrefixOf name then
      some (Text.lowercase (name.drop variableMark.length), value)
    else none

/-- What variables say about a key: a text if one is named for it, or else a mapping if one is
named for something in it. -/
def fromVariables? (environment : List (Text × Text)) (key : Text) : Option Value :=
  match (settingVariables environment).lookup key with
  | some value => some (.text value)
  | none =>
    if (settingVariables environment).any fun v => (key ++ [0x2E]).isPrefixOf v.1 then
      some (.other .mapping)
    else none

variable {named : List (Text × Text)}

/-- Variables that are named for a key. -/
theorem get?_ofList_plain (hnamed : (named.map Prod.fst).Nodup) (hkey : 0x2E ∉ key) :
    (Table.ofList ((named.filter (!·.1.contains 0x2E)).map
      fun (name, value) => Layer.ofVariable name value)).get? key =
      (named.lookup key).map .text := by
  have hplain : (named.filter (!·.1.contains 0x2E)).map
      (fun (name, value) => Layer.ofVariable name value) =
      (named.filter (!·.1.contains 0x2E)).map fun e => (e.1, Value.text e.2) := by
    refine List.map_congr_left fun e he => Layer.ofVariable_of_not_mem ?_
    simpa using (List.mem_filter.1 he).2
  have hkeys : (((named.filter (!·.1.contains 0x2E)).map fun e =>
      (e.1, Value.text e.2)).map Prod.fst).Nodup := by
    rw [List.map_map]
    exact hnamed.sublist (List.filter_sublist.map Prod.fst)
  refine Option.ext fun v => ?_
  rw [hplain, Table.get?_ofList_eq_some_iff hkeys, Option.map_eq_some_iff, List.mem_map]
  constructor
  · rintro ⟨⟨name, value⟩, hmem, heq⟩
    cases heq
    exact ⟨value, (Table.lookup_eq_some_iff_mem hnamed).2 (List.mem_filter.1 hmem).1, rfl⟩
  · rintro ⟨value, hvalue, rfl⟩
    refine ⟨(key, value), List.mem_filter.2 ⟨?_, by simpa using hkey⟩, rfl⟩
    exact (Table.lookup_eq_some_iff_mem hnamed).1 hvalue

/-- Variables that are named for something in a key. -/
theorem get?_ofList_nested (hkey : 0x2E ∉ key) :
    (Table.ofList ((named.filter (·.1.contains 0x2E)).map
      fun (name, value) => Layer.ofVariable name value)).get? key =
      if named.any (fun v => (key ++ [0x2E]).isPrefixOf v.1) then some (.other .mapping)
      else none := by
  have hpoint : ∀ e ∈ named.filter (·.1.contains 0x2E), 0x2E ∈ e.1 := fun e he => by
    simpa using (List.mem_filter.1 he).2
  have hvalues : ∀ e ∈ (named.filter (·.1.contains 0x2E)).map
      (fun (name, value) => Layer.ofVariable name value), e.2 = .other .mapping := by
    intro e he
    obtain ⟨v, hv, rfl⟩ := List.mem_map.1 he
    obtain ⟨_, _, -, heq⟩ := Layer.exists_ofVariable_of_mem (hpoint v hv)
    exact congrArg Prod.snd heq
  rw [Table.get?_ofList_of_forall hvalues]
  refine if_congr ?_ rfl rfl
  simp only [List.map_map, List.mem_map, Function.comp_apply, List.any_eq_true,
    List.isPrefixOf_iff_prefix]
  constructor
  · rintro ⟨v, hv, hfirst⟩
    exact ⟨v, (List.mem_filter.1 hv).1, (Layer.ofVariable_fst_eq_iff (hpoint v hv) hkey).1 hfirst⟩
  · rintro ⟨v, hv, hprefix⟩
    have hmem : 0x2E ∈ v.1 := hprefix.subset (by simp)
    exact ⟨v, List.mem_filter.2 ⟨hv, by simpa using hmem⟩,
      (Layer.ofVariable_fst_eq_iff hmem hkey).2 hprefix⟩

theorem environmentLayer_eq :
    environmentLayer environment =
      let named := (settingVariables environment).filter fun v => !v.1.isEmpty
      .ofList ((named.filter (·.1.contains 0x2E)).map (fun (name, value) =>
          Layer.ofVariable name value)
        ++ (named.filter (!·.1.contains 0x2E)).map fun (name, value) =>
          Layer.ofVariable name value) := by
  have hlowered : (environment.filterMap fun (name, value) =>
      if variableMark.isPrefixOf name then some (name.drop variableMark.length, value)
      else none).map (fun (name, value) => (Text.lowercase name, value)) =
      settingVariables environment := by
    rw [List.map_filterMap, settingVariables]
    refine List.filterMap_congr fun v _ => ?_
    obtain ⟨name, value⟩ := v
    dsimp only
    split <;> rfl
  rw [environmentLayer, Layer.ofEnvironment, hlowered]
  dsimp only
  rw [List.map_append]

/-- Where no two variables are for the same key, the layer has what they say about it. -/
theorem get?_environmentLayer (hdistinct : ((settingVariables environment).map Prod.fst).Nodup)
    (hkey : 0x2E ∉ key) (hne : key ≠ []) :
    (environmentLayer environment).get? key = fromVariables? environment key := by
  have hnamed : (((settingVariables environment).filter fun v => !v.1.isEmpty).map
      Prod.fst).Nodup := hdistinct.sublist (List.filter_sublist.map Prod.fst)
  rw [environmentLayer_eq]
  dsimp only
  rw [Table.get?_ofList_append, get?_ofList_plain hnamed hkey, get?_ofList_nested hkey]
  -- the variable without a name is for no key
  have hlookup : ((settingVariables environment).filter fun v => !v.1.isEmpty).lookup key =
      (settingVariables environment).lookup key := by
    refine Option.ext fun v => ?_
    rw [Table.lookup_eq_some_iff_mem hnamed, Table.lookup_eq_some_iff_mem hdistinct]
    simp [hne]
  have hany : ((settingVariables environment).filter fun v => !v.1.isEmpty).any
      (fun v => (key ++ [0x2E]).isPrefixOf v.1) =
      (settingVariables environment).any fun v => (key ++ [0x2E]).isPrefixOf v.1 := by
    rw [List.any_filter]
    congr 1
    funext v
    cases v.1 <;> simp
  rw [hlookup, hany, fromVariables?]
  cases (settingVariables environment).lookup key <;> rfl

end Settings

end Variables

end SqlStubs
