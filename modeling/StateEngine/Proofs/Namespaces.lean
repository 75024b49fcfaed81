import StateEngine.Proofs.Accessors

/-!
# Namespaces

Whether a state lies in a path is told from the two names alone, and the namespaces of a state are read off its own
name, point by point. The two agree: to lie in a path orders all names, and the namespaces of a name are the paths
above it, the outermost first. So a definition knows each path that one of its states lies in.

* `isWithin_iff`: what it is to lie in a path.
* `isWithin_antisymm`, `isWithin_trans`: this orders the names.
* `mem_namespacesOf_iff`, `namespacesOf_pairwise`: **the namespaces of a name.**
* `Definition.exists_within_iff`: the paths that some state lies in.
* `namespaces_above`: **paths and namespaces, for names and for definitions.**
-/

namespace StateEngine

/-! ## Names in order -/

theorem isWithinChars_iff {name outer : List Char} :
    isWithinChars name outer = true ↔ name = outer ∨ ∃ rest, name = outer ++ '.' :: rest := by
  constructor
  · intro h
    induction outer generalizing name with
    | nil =>
      cases name with
      | nil => exact .inl rfl
      | cons c rest => exact .inr ⟨rest, by simpa [isWithinChars] using h⟩
    | cons d outer ih =>
      cases name with
      | nil => simp [isWithinChars] at h
      | cons c name =>
        simp only [isWithinChars, Bool.and_eq_true, beq_iff_eq] at h
        obtain ⟨rfl, hrest⟩ := h
        rcases ih hrest with rfl | ⟨rest, rfl⟩
        · exact .inl rfl
        · exact .inr ⟨rest, rfl⟩
  · rintro (rfl | ⟨rest, rfl⟩)
    · exact isWithinChars_refl name
    · exact isWithinChars_append outer rest

/-- **To lie in a path** is to be it, or to go on after it with a point. -/
theorem isWithin_iff {name outer : String} :
    isWithin name outer = true ↔ name = outer ∨ ∃ rest, name = outer ++ "." ++ rest := by
  unfold isWithin
  rw [isWithinChars_iff, String.toList_inj]
  refine or_congr_right ⟨fun ⟨rest, h⟩ => ⟨String.ofList rest, ?_⟩, fun ⟨rest, h⟩ => ⟨rest.toList, ?_⟩⟩
  · rw [← String.toList_inj, h]
    simp
  · rw [h]
    simp

/-- A name is at least as long as the paths that it lies in. -/
theorem length_le_of_isWithin {name outer : String} (h : isWithin name outer = true) :
    outer.length ≤ name.length := by
  rcases isWithin_iff.1 h with rfl | ⟨rest, rfl⟩
  · exact Nat.le_refl _
  · simp only [String.length_append]
    omega

/-- A name is longer than the other paths that it lies in, in characters as well as in bytes. -/
theorem length_lt_of_isWithin {name outer : String} (h : isWithin name outer = true) (hne : outer ≠ name) :
    outer.length < name.length ∧ outer.utf8ByteSize < name.utf8ByteSize := by
  rcases isWithin_iff.1 h with rfl | ⟨rest, rfl⟩
  · exact absurd rfl hne
  · have hpoint : ".".length = 1 ∧ ".".utf8ByteSize = 1 := by decide
    simp only [String.length_append, String.utf8ByteSize_append]
    omega

theorem isWithin_antisymm {s t : String} (hst : isWithin s t = true) (hts : isWithin t s = true) : s = t := by
  by_contra hne
  have hlt := (length_lt_of_isWithin hts hne).1
  have hle := length_le_of_isWithin hst
  omega

theorem isWithin_trans {s t u : String} (hst : isWithin s t = true) (htu : isWithin t u = true) :
    isWithin s u = true := by
  rw [isWithin_iff] at hst htu ⊢
  rcases hst with rfl | ⟨rest, rfl⟩
  · exact htu
  · rcases htu with rfl | ⟨other, rfl⟩
    · exact .inr ⟨rest, rfl⟩
    · exact .inr ⟨other ++ "." ++ rest, by simp only [String.append_assoc]⟩

/-! ## The namespaces of a name -/

theorem ne_nil_of_mem_namespaceChars {path passed chars : List Char} (h : path ∈ namespaceChars passed chars) :
    path ≠ [] := by
  induction chars generalizing passed with
  | nil => exact nomatch h
  | cons c rest ih =>
    unfold namespaceChars at h
    split at h
    · rename_i hpoint
      rcases List.mem_cons.1 h with rfl | hrest
      · simpa using hpoint.2
      · exact ih hrest
    · exact ih h

/-- What was passed and comes before some point is a namespace, unless it is empty. -/
theorem mem_namespaceChars {passed before after : List Char} (h : passed.reverse ++ before ≠ []) :
    passed.reverse ++ before ∈ namespaceChars passed (before ++ '.' :: after) := by
  induction before generalizing passed with
  | nil =>
    rw [List.append_nil] at h ⊢
    simp [namespaceChars, by simpa using h]
  | cons c before ih =>
    have hmem : passed.reverse ++ c :: before ∈ namespaceChars (c :: passed) (before ++ '.' :: after) := by
      have hfurther : (c :: passed).reverse ++ before ∈ namespaceChars (c :: passed) (before ++ '.' :: after) :=
        ih (by simp)
      simpa using hfurther
    rw [List.cons_append, namespaceChars]
    split
    · exact List.mem_cons_of_mem _ hmem
    · exact hmem

/-- **The namespaces of a name** are the paths above it that are not empty. -/
theorem mem_namespacesOf_iff {name path : String} :
    path ∈ namespacesOf name ↔ path ≠ "" ∧ path ≠ name ∧ isWithin name path = true := by
  constructor
  · intro h
    obtain ⟨chars, hchars, rfl⟩ := List.mem_map.1 h
    obtain ⟨before, after, hname, hbefore⟩ := exists_of_mem_namespaceChars hchars
    refine ⟨?_, ?_, isWithin_of_mem_namespaces h⟩
    · intro hempty
      exact ne_nil_of_mem_namespaceChars hchars (by simpa using hempty)
    · intro heq
      have hlength : chars.length = (before ++ '.' :: after).length := by
        rw [← hname, ← heq, String.toList_ofList]
      simp [hbefore] at hlength
  · rintro ⟨hempty, hne, hwithin⟩
    rcases isWithin_iff.1 hwithin with heq | ⟨rest, rfl⟩
    · exact absurd heq.symm hne
    · refine List.mem_map.2 ⟨path.toList, ?_, String.ofList_toList⟩
      have hmem : [].reverse ++ path.toList ∈ namespaceChars [] (path.toList ++ '.' :: rest.toList) :=
        mem_namespaceChars (by simpa using hempty)
      simpa using hmem

/-- Each of the namespaces of a name that come later lies in those before. -/
theorem namespaceChars_pairwise (passed chars : List Char) :
    (namespaceChars passed chars).Pairwise fun p q => p ≠ q ∧ isWithinChars q p = true := by
  induction chars generalizing passed with
  | nil => exact .nil
  | cons c rest ih =>
    unfold namespaceChars
    split
    · rename_i hpoint
      refine List.pairwise_cons.2 ⟨fun q hq => ?_, ih (c :: passed)⟩
      obtain ⟨before, after, -, rfl⟩ := exists_of_mem_namespaceChars hq
      rw [hpoint.1, List.reverse_cons, List.append_assoc]
      exact ⟨by simp, isWithinChars_append _ before⟩
    · exact ih (c :: passed)

theorem namespacesOf_pairwise (name : String) :
    (namespacesOf name).Pairwise fun p q => p ≠ q ∧ isWithin q p = true := by
  refine List.Pairwise.map _ (fun p q hpq => ?_) (namespaceChars_pairwise [] name.toList)
  refine ⟨fun heq => hpq.1 (String.ofList_injective heq), ?_⟩
  rw [isWithin, String.toList_ofList, String.toList_ofList]
  exact hpq.2

/-! ## The paths of a definition -/

namespace Definition

variable {κ : Type} {d : Definition κ} {path : String}

/-- **The paths that some state lies in** are the states and their namespaces. -/
theorem exists_within_iff (hpath : path ≠ "") :
    (∃ state ∈ d.states, isWithin state.name path = true) ↔ path ∈ d.stateNames ∨ path ∈ d.namespaces := by
  have hnames : (∃ state ∈ d.states, isWithin state.name path = true) ↔
      ∃ name ∈ d.stateNames, isWithin name path = true := by
    simp [stateNames]
  have hnamespaces : path ∈ d.namespaces ↔ ∃ name ∈ d.stateNames, path ∈ namespacesOf name := by
    simp [namespaces]
  rw [hnames, hnamespaces]
  constructor
  · rintro ⟨name, hname, hwithin⟩
    by_cases heq : path = name
    · exact .inl (heq ▸ hname)
    · exact .inr ⟨name, hname, mem_namespacesOf_iff.2 ⟨hpath, heq, hwithin⟩⟩
  · rintro (hname | ⟨name, hname, hmem⟩)
    · exact ⟨path, hname, isWithin_refl path⟩
    · exact ⟨name, hname, isWithin_of_mem_namespaces hmem⟩

theorem lookupStates_fails_iff :
    (∃ error, d.lookupStates path = .error error) ↔ ¬ ∃ state ∈ d.states, isWithin state.name path = true := by
  unfold lookupStates
  cases hfound : d.states.filter fun state => isWithin state.name path with
  | nil =>
    refine iff_of_true ⟨_, rfl⟩ ?_
    rintro ⟨state, hstate, hwithin⟩
    exact List.filter_eq_nil_iff.1 hfound state hstate hwithin
  | cons first others =>
    refine iff_of_false (fun ⟨_, h⟩ => nomatch h) (not_not_intro ?_)
    have hfirst : first ∈ d.states.filter fun state => isWithin state.name path := by simp [hfound]
    exact ⟨first, List.mem_filter.1 hfirst⟩

theorem stateMatches_fails_iff (state : String) :
    (∃ error, d.stateMatches state path = .error error) ↔ ∃ error, d.lookupStates path = .error error := by
  unfold stateMatches
  cases d.lookupStates path with
  | error error => exact iff_of_true ⟨error, rfl⟩ ⟨error, rfl⟩
  | ok found => exact iff_of_false (fun ⟨_, h⟩ => nomatch h) fun ⟨_, h⟩ => nomatch h

end Definition

/-- **Paths and namespaces.** To lie in a path is a partial order on all names, and the namespaces of a name are
just its prefixes that it lies in, but for itself and the empty one, each once and from the shortest to the longest.
So a definition fails to find a path, or to match a state with it, exactly if it is none of its states and none of
their namespaces, and never fails for the path of an accessor. -/
theorem namespaces_above (κ : Type) :
    ((∀ s, isWithin s s = true) ∧
      (∀ s t, isWithin s t = true → isWithin t s = true → s = t) ∧
      ∀ s t u, isWithin s t = true → isWithin t u = true → isWithin s u = true) ∧
    (∀ name, (namespacesOf name).Nodup ∧
      ((namespacesOf name).Pairwise fun p q => p.length < q.length ∧ p.utf8ByteSize < q.utf8ByteSize) ∧
      ∀ path, path ∈ namespacesOf name ↔
        path ≠ "" ∧ path.toList <+: name.toList ∧ path ≠ name ∧ isWithin name path = true) ∧
    ∀ d : Definition κ,
      (∀ path, path ≠ "" →
        ((∃ error, d.lookupStates path = .error error) ↔ path ∉ d.stateNames ∧ path ∉ d.namespaces) ∧
        ∀ state, (∃ error, d.stateMatches state path = .error error) ↔
          path ∉ d.stateNames ∧ path ∉ d.namespaces) ∧
      ∀ state, ∀ a ∈ d.accessors, ∃ answer, d.stateMatches state a.path = .ok answer := by
  refine ⟨⟨isWithin_refl, fun s t => isWithin_antisymm, fun s t u => isWithin_trans⟩, fun name => ⟨?_, ?_, ?_⟩,
    fun d => ⟨fun path hpath => ?_, fun state a ha => ?_⟩⟩
  · exact (namespacesOf_pairwise name).imp And.left
  · exact (namespacesOf_pairwise name).imp fun hpq => length_lt_of_isWithin hpq.2 hpq.1
  · intro path
    rw [mem_namespacesOf_iff]
    refine and_congr_right fun _ => ⟨fun h => ⟨?_, h⟩, And.right⟩
    rcases isWithin_iff.1 h.2 with rfl | ⟨rest, rfl⟩
    · exact List.prefix_rfl
    · simp [String.append_assoc]
  · have hfails : (∃ error, d.lookupStates path = .error error) ↔ path ∉ d.stateNames ∧ path ∉ d.namespaces := by
      rw [Definition.lookupStates_fails_iff, Definition.exists_within_iff hpath, not_or]
    exact ⟨hfails, fun state => (Definition.stateMatches_fails_iff state).trans hfails⟩
  · have hwithin := Definition.exists_within_of_mem_paths (Definition.mem_accessors.1 ha).1
    cases hmatch : d.stateMatches state a.path with
    | ok answer => exact ⟨answer, rfl⟩
    | error error =>
      have hfails := (Definition.stateMatches_fails_iff state).1 ⟨error, hmatch⟩
      exact absurd hwithin (Definition.lookupStates_fails_iff.1 hfails)

namespace Lift

/-- A lift whose states have points in a row and at the front, and one of which is a namespace too. -/
def spec : Json := .object [
  ("states", .object [("initialState", .string "door..open")]),
  ("events", .object [("close", .object [("transitions", .array [
    .object [("door..open", .string "door.")], .object [("door.", .string ".größe.é")]])])])]

def definition : Definition Unit :=
  let records : List Record := [⟨"close", "door..open", "door.", .none, .ofFn fun _ => []⟩,
    ⟨"close", "door.", ".größe.é", .none, .ofFn fun _ => []⟩]
  ⟨"door..open", ["door..open", "door.", ".größe.é"].map (State.ofRecords records), [⟨"close", records⟩], []⟩

theorem compile_spec : Definition.compile spec [] = .ok definition := rfl

end Lift

/-- The lift finds its doors by their namespace, and not by a part of a word. -/
theorem namespaces_above_lift :
    Definition.compile Lift.spec [] = .ok Lift.definition ∧
      isWithin "door..open" "door." = true ∧ isWithin "door." "door" = true ∧ isWithin "door..open" "door" = true ∧
      namespacesOf "door..open" = ["door", "door."] ∧
      ("door" ≠ "" ∧ ¬ ∃ error, Lift.definition.lookupStates "door" = .error error) ∧
      ("doo" ≠ "" ∧ ∃ error, Lift.definition.stateMatches "door." "doo" = .error error) ∧
      (⟨"isInGröße", ".größe"⟩ ∈ Lift.definition.accessors ∧
        ∃ answer, Lift.definition.stateMatches "door." ".größe" = .ok answer) := by
  obtain ⟨⟨-, -, htrans⟩, -, hdefinition⟩ := namespaces_above Unit
  obtain ⟨hfails, hanswers⟩ := hdefinition Lift.definition
  have hopen : isWithin "door..open" "door." = true := by decide
  have hdoor : isWithin "door." "door" = true := by decide
  have haccessor : ⟨"isInGröße", ".größe"⟩ ∈ Lift.definition.accessors := by decide
  refine ⟨Lift.compile_spec, hopen, hdoor, htrans _ _ _ hopen hdoor, by decide, ⟨by decide, fun herror => ?_⟩,
    ⟨by decide, ((hfails "doo" (by decide)).2 "door.").2 (by decide)⟩, haccessor, hanswers "door." _ haccessor⟩
  exact absurd ((hfails "door" (by decide)).1.1 herror).2 (by decide)

end StateEngine
