import BlockScript.Proofs.Descent

/-!
# Where variables and lists are kept

A block means a variable or a list by a name, and perhaps by an id. While a target is compiled this
is settled once and for all: the block means something of the target or of the stage, by name. While
the project runs, each target keeps what it has by name. What a block means is kept where the block
looks for it, unless neither the target nor the stage declares anything that it could mean.

* `Compile.Kind.keeps_ofData`: a target keeps just the names that it declares;
* `Compile.Kind.Dangling`: a reference to what nobody declares;
* `Compile.Scope.resolve_cases`: how a reference is settled;
* `Compile.Scope.owner_resolve`: who keeps what a reference means, at the start of a run;
* `Compile.Scope.resolve_kept`: all of it.
-/

namespace BlockScript

namespace Table

variable {α : Type} {t : Table α}

theorem get?_eq_some_iff {name : String} {a : α} :
    t.get? name = some a ↔ (name, a) ∈ t.entries := by
  refine ⟨mem_of_get?, fun h => ?_⟩
  obtain ⟨before, after, heq⟩ := List.append_of_mem h
  refine List.lookup_eq_some_iff.mpr ⟨before, after, heq, fun e he => ?_⟩
  have hsorted := t.sorted
  rw [heq, List.pairwise_append] at hsorted
  have hlt : e.1 < name := hsorted.2.2 e he (name, a) List.mem_cons_self
  have hne : name ≠ e.1 := fun h => String.lt_irrefl _ (h ▸ hlt)
  simpa using hne

theorem mem_values {a : α} : a ∈ t.values ↔ ∃ name, t.get? name = some a := by
  simp only [values, List.mem_map, Prod.exists, exists_eq_right, get?_eq_some_iff]

theorem contains_put {name other : String} {a : α} :
    (t.put name a).contains other = true ↔ other = name ∨ t.contains other = true := by
  unfold contains
  by_cases h : other = name
  · subst h
    simp
  · rw [get?_put_of_ne h]
    simp [h]

/-- A table that is filled from entries has their names, and those that it had before. -/
theorem contains_foldl_put {l : List (String × α)} {name : String} :
    (l.foldl (fun t e => t.put e.1 e.2) t).contains name = true ↔
      name ∈ l.map (·.1) ∨ t.contains name = true := by
  induction l generalizing t with
  | nil => simp
  | cons e rest ih =>
    rw [List.foldl_cons, ih, contains_put, List.map_cons, List.mem_cons]
    tauto

theorem contains_ofEntries {l : List (String × α)} {name : String} :
    (ofEntries l).contains name = true ↔ name ∈ l.map (·.1) := by
  rw [ofEntries, contains_foldl_put]
  simp [contains]

end Table

namespace Compile

/-! ## 1. Declarations -/

namespace Kind

/-- Whether a target keeps something of the kind under a name. -/
def keeps (k : Kind) (t : Target) (name : String) : Bool :=
  match k with
  | .variable => t.vars.contains name
  | .list => t.lists.contains name

/-- Nothing of the kind that a target declares has the name. -/
def Undeclared (k : Kind) (d : TargetData) (name : String) : Prop :=
  ∀ id x, (k.declared d).get? id = some x → x.name ≠ name

/-- A reference to what nobody declares: neither the target nor the stage of the project has
    anything under its id, if it has one, nor under its name. -/
structure Dangling (k : Kind) (p : Project) (d : TargetData) (name : String) (id : Option String) :
    Prop where
  id : ∀ x, id = some x →
    (k.declared d).get? x = none ∧ ∀ s, p.stage? = some s → (k.declared s).get? x = none
  name : k.Undeclared d name ∧ ∀ s, p.stage? = some s → k.Undeclared s name

variable {k : Kind} {d : TargetData} {name : String}

theorem declares_iff : Scope.declares k (some d) name = true ↔
    ∃ id x, (k.declared d).get? id = some x ∧ x.name = name := by
  simp only [Scope.declares, List.any_eq_true, Table.mem_values, beq_iff_eq]
  constructor
  · rintro ⟨x, ⟨id, hx⟩, hname⟩
    exact ⟨id, x, hx, hname⟩
  · rintro ⟨id, x, hx, hname⟩
    exact ⟨x, ⟨id, hx⟩, hname⟩

theorem declares_eq_false_iff : Scope.declares k (some d) name = false ↔ k.Undeclared d name := by
  rw [← Bool.not_eq_true, declares_iff]
  simp only [Undeclared, not_exists, not_and]

/-- **A target keeps just the names that it declares.** -/
theorem keeps_ofData (id : TargetId) (q : Program) :
    k.keeps (.ofData id d q) name = Scope.declares k (some d) name := by
  rw [Bool.eq_iff_iff]
  cases k <;> simp [keeps, Target.ofData, Table.contains_ofEntries, Scope.declares, declared]

end Kind

/-! ## 2. What a reference means -/

namespace Scope

variable {s : Scope} {k : Kind} {name : String}

theorem nameOf?_eq_none_iff {t : Option TargetData} {x : String} :
    nameOf? k t x = none ↔ ∀ d, t = some d → (k.declared d).get? x = none := by
  cases t with
  | none => simp [nameOf?]
  | some d => simp [nameOf?]

theorem nameOf?_eq_some_iff {t : Option TargetData} {x n : String} :
    nameOf? k t x = some n ↔ ∃ d y, t = some d ∧ (k.declared d).get? x = some y ∧ y.name = n := by
  cases t with
  | none => simp [nameOf?]
  | some d => simp [nameOf?]

/-- An id that the sprite declares decides. -/
theorem resolve_of_sprite {x n : String} (h : nameOf? k s.sprite x = some n) :
    s.resolve k name (some x) = .ofTarget n := by
  simp only [resolve, h]

/-- An id that the stage declares and the sprite does not decides. -/
theorem resolve_of_stage {x n : String} (hsprite : nameOf? k s.sprite x = none)
    (hstage : nameOf? k s.stage x = some n) : s.resolve k name (some x) = .ofStage n := by
  simp only [resolve, hsprite, hstage]

/-- An id that neither declares counts for nothing. -/
theorem resolve_of_unknown {id : Option String} (h : ∀ x, id = some x →
    nameOf? k s.sprite x = none ∧ nameOf? k s.stage x = none) :
    s.resolve k name id = s.resolveName k name := by
  cases id with
  | none => rfl
  | some x =>
    obtain ⟨hsprite, hstage⟩ := h x rfl
    simp only [resolve, hsprite, hstage]

/-- **A reference is settled** by an id that the sprite declares, or else by one that the stage
    declares, or else by its name. -/
theorem resolve_cases (s : Scope) (k : Kind) (name : String) (id : Option String) :
    (∃ x n, id = some x ∧ nameOf? k s.sprite x = some n ∧ s.resolve k name id = .ofTarget n) ∨
    (∃ x n, id = some x ∧ nameOf? k s.stage x = some n ∧ s.resolve k name id = .ofStage n) ∨
    (∀ x, id = some x → nameOf? k s.sprite x = none ∧ nameOf? k s.stage x = none) ∧
      s.resolve k name id = s.resolveName k name := by
  cases id with
  | none => exact .inr (.inr ⟨fun _ h => (by cases h), rfl⟩)
  | some x =>
    cases hsprite : nameOf? k s.sprite x with
    | some n => exact .inl ⟨x, n, rfl, hsprite, resolve_of_sprite hsprite⟩
    | none =>
      cases hstage : nameOf? k s.stage x with
      | some n => exact .inr (.inl ⟨x, n, rfl, hstage, resolve_of_stage hsprite hstage⟩)
      | none =>
        have hunknown : ∀ y, some x = some y →
            nameOf? k s.sprite y = none ∧ nameOf? k s.stage y = none := by
          rintro _ ⟨⟩
          exact ⟨hsprite, hstage⟩
        exact .inr (.inr ⟨hunknown, resolve_of_unknown hunknown⟩)

theorem declares_eq_false_iff {t : Option TargetData} :
    declares k t name = false ↔ ∀ d, t = some d → k.Undeclared d name := by
  cases t with
  | none => simp [declares]
  | some d => simp [Kind.declares_eq_false_iff]

theorem declares_of_nameOf? {t : Option TargetData} {x n : String} (h : nameOf? k t x = some n) :
    declares k t n = true := by
  obtain ⟨d, y, rfl, hy, hn⟩ := nameOf?_eq_some_iff.mp h
  exact Kind.declares_iff.mpr ⟨x, y, hy, hn⟩

/-- **What a reference means of the sprite, the sprite declares.** -/
theorem declares_of_resolve_eq_ofTarget {id : Option String} {n : String}
    (h : s.resolve k name id = .ofTarget n) : declares k s.sprite n = true := by
  rcases resolve_cases s k name id with ⟨x, n', -, hn, heq⟩ | ⟨x, n', -, hn, heq⟩ | ⟨-, heq⟩
  · cases heq.symm.trans h
    exact declares_of_nameOf? hn
  · cases heq.symm.trans h
  · rw [heq, resolveName] at h
    split at h
    · next hdeclares =>
      cases h
      exact hdeclares
    · cases h

/-- **What a reference means of the stage, the stage declares**, or nobody declares anything that
    it could mean. -/
theorem declares_of_resolve_eq_ofStage {id : Option String} {n : String}
    (h : s.resolve k name id = .ofStage n) :
    declares k s.stage n = true ∨ n = name ∧
      (∀ x, id = some x → nameOf? k s.sprite x = none ∧ nameOf? k s.stage x = none) ∧
      declares k s.sprite name = false ∧ declares k s.stage name = false := by
  rcases resolve_cases s k name id with ⟨x, n', -, hn, heq⟩ | ⟨x, n', -, hn, heq⟩ | ⟨hid, heq⟩
  · cases heq.symm.trans h
  · cases heq.symm.trans h
    exact .inl (declares_of_nameOf? hn)
  · rw [heq, resolveName] at h
    split at h
    · cases h
    · next hsprite =>
      cases h
      cases hstage : declares k s.stage name with
      | true => exact .inl rfl
      | false => exact .inr ⟨rfl, hid, Bool.not_eq_true _ ▸ hsprite, rfl⟩

end Scope

/-! ## 3. What is kept -/

namespace Scope

/-- The sprite of a scope is the target at hand, unless this is the stage. -/
theorem sprite_of (d : TargetData) (stage : Option TargetData) (params : List String) :
    ((of d stage).enter params).sprite = if d.isStage then none else some d := by
  unfold of
  split <;> rfl

/-- The stage of a scope is the stage of the project. -/
theorem stage_of {p : Project} {d : TargetData} (h : d.isStage = true → p.stage? = some d)
    (params : List String) : ((of d p.stage?).enter params).stage = p.stage? := by
  unfold of
  split
  · next hstage => exact (h hstage).symm
  · rfl

variable {p : Project} {d : TargetData} {k : Kind} {name : String} {id : Option String}

/-- A reference is dangling just if nothing is found for it in the scope. -/
theorem dangling_iff (hfirst : d.isStage = true → p.stage? = some d) (params : List String) :
    k.Dangling p d name id ↔
      (∀ x, id = some x → nameOf? k ((of d p.stage?).enter params).sprite x = none ∧
        nameOf? k ((of d p.stage?).enter params).stage x = none) ∧
      declares k ((of d p.stage?).enter params).sprite name = false ∧
      declares k ((of d p.stage?).enter params).stage name = false := by
  rw [sprite_of, stage_of hfirst]
  simp only [nameOf?_eq_none_iff, declares_eq_false_iff]
  cases hstage : d.isStage with
  | false =>
    refine ⟨fun h => ⟨fun x hx => ?_, ?_, h.name.2⟩, fun h => ⟨fun x hx => ?_, ?_⟩⟩
    · refine ⟨?_, (h.id x hx).2⟩
      rintro _ ⟨⟩
      exact (h.id x hx).1
    · rintro _ ⟨⟩
      exact h.name.1
    · exact ⟨(h.1 x hx).1 d rfl, (h.1 x hx).2⟩
    · exact ⟨h.2.1 d rfl, h.2.2⟩
  | true =>
    -- the stage has no sprite before it
    have hd := hfirst hstage
    refine ⟨fun h => ⟨fun x hx => ?_, ?_, h.name.2⟩, fun h => ⟨fun x hx => ?_, ?_⟩⟩
    · exact ⟨fun _ h => (by cases h), (h.id x hx).2⟩
    · exact fun _ h => (by cases h)
    · exact ⟨(h.1 x hx).2 d hd, (h.1 x hx).2⟩
    · exact ⟨h.2.2 d hd, h.2.2⟩

/-- A dangling reference means the stage's own under its name. -/
theorem resolve_of_dangling (hfirst : d.isStage = true → p.stage? = some d)
    (h : k.Dangling p d name id) (params : List String) :
    ((of d p.stage?).enter params).resolve k name id = .ofStage name := by
  obtain ⟨hid, hsprite, -⟩ := (dangling_iff hfirst params).mp h
  rw [resolve_of_unknown hid, resolveName, hsprite]
  rfl

/-- **What a reference means of the target at hand**, the target declares; it is a sprite. -/
theorem declares_of_target (hfirst : d.isStage = true → p.stage? = some d) {params : List String}
    {n : String} (h : ((of d p.stage?).enter params).resolve k name id = .ofTarget n) :
    d.isStage = false ∧ declares k (some d) n = true ∧ ¬ k.Dangling p d name id := by
  have hdeclares := declares_of_resolve_eq_ofTarget h
  rw [sprite_of] at hdeclares
  split at hdeclares
  · cases hdeclares
  · next hsprite =>
    refine ⟨Bool.not_eq_true _ ▸ hsprite, hdeclares, fun hdangling => ?_⟩
    cases (resolve_of_dangling hfirst hdangling params).symm.trans h

/-- **What a reference means of the stage**, the stage declares just if it is not dangling. -/
theorem declares_iff_not_dangling (hfirst : d.isStage = true → p.stage? = some d)
    {params : List String} {n : String}
    (h : ((of d p.stage?).enter params).resolve k name id = .ofStage n) :
    declares k p.stage? n = true ↔ ¬ k.Dangling p d name id := by
  constructor
  · intro hdeclares hdangling
    cases (resolve_of_dangling hfirst hdangling params).symm.trans h
    obtain ⟨-, -, hno⟩ := (dangling_iff hfirst params).mp hdangling
    rw [stage_of hfirst, hdeclares] at hno
    cases hno
  · intro hnot
    rcases declares_of_resolve_eq_ofStage h with hdeclares | ⟨-, hno⟩
    · rwa [stage_of hfirst] at hdeclares
    · exact absurd ((dangling_iff hfirst params).mpr hno) hnot

/-- **Who is asked for what a reference means** at the start of a run, by any script of the target,
    keeps it just if the reference is not dangling. -/
theorem owner_resolve {H : Type} {i : Nat} (hd : p.targets[i]? = some d)
    (hfirst : d.isStage = true → p.stage? = some d) {params : List String} {storage : Storage}
    (hs : ((of d p.stage?).enter params).resolve k name id = storage) {programs : List Program}
    {o : Options} {host : H} {surroundings : Surroundings} {m : Machine H}
    (hload : Machine.load p programs o host surroundings = .ok m) {t : Turn H}
    (ht : t.machine = m) (htarget : t.thread.target = i) :
    ∃ owner, Act.owner storage t = .ok owner t ∧
      (k.keeps owner storage.name = true ↔ ¬ k.Dangling p d name id) := by
  obtain ⟨who, n⟩ := storage
  cases who with
  | target =>
    obtain ⟨-, hdeclares, hnot⟩ := declares_of_target hfirst hs
    obtain ⟨q, hq⟩ := Machine.exists_target?_load hload hd
    refine ⟨.ofData i d q, ?_, ?_⟩
    · rw [Act.owner_apply]
      show Act.current t = _
      rw [Act.current_apply, ht, htarget, hq]
    · rw [Kind.keeps_ofData]
      exact iff_of_true hdeclares hnot
  | stage =>
    obtain ⟨j, s, q, -, hstage, hfound⟩ := Machine.stage?_load hload
    have hdeclares := declares_iff_not_dangling hfirst hs
    refine ⟨.ofData j s q, ?_, ?_⟩
    · rw [Act.owner_apply, ht, hfound]
    · rw [Kind.keeps_ofData, ← hstage]
      exact hdeclares

/-- **What blocks mean is kept where they look for it.** A block of a target, which is a sprite or
    the stage of the project, refers to a variable or a list by a name and perhaps by an id. If it
    means something of the sprite, the sprite keeps it from the start. If it means something of the
    stage, the stage keeps it from the start, or neither of them declares the id or the name. An id
    that is declared decides, whatever the name, and first the sprite's. And when the project is
    loaded, each script of the target finds what the block means where it asks for it, or nobody
    declares it. -/
theorem resolve_kept {i : Nat} (hd : p.targets[i]? = some d)
    (hfirst : d.isStage = true → p.stage? = some d) {params : List String} {storage : Storage}
    (hs : ((of d p.stage?).enter params).resolve k name id = storage) :
    (storage.owner = .target → d.isStage = false ∧
      ∀ j q, k.keeps (.ofData j d q) storage.name = true) ∧
    (storage.owner = .stage →
      (∃ stage, p.stage? = some stage ∧ ∀ j q, k.keeps (.ofData j stage q) storage.name = true) ∨
      storage.name = name ∧ k.Dangling p d name id) ∧
    (∀ x y, id = some x → d.isStage = false → (k.declared d).get? x = some y →
      storage = .ofTarget y.name) ∧
    (∀ x y stage, id = some x → (d.isStage = false → (k.declared d).get? x = none) →
      p.stage? = some stage → (k.declared stage).get? x = some y → storage = .ofStage y.name) ∧
    ∀ (H : Type) (programs : List Program) (o : Options) (host : H) (surroundings : Surroundings)
      (m : Machine H) (t : Turn H), Machine.load p programs o host surroundings = .ok m →
      t.machine = m → t.thread.target = i →
      ∃ owner, Act.owner storage t = .ok owner t ∧
        (k.keeps owner storage.name = true ↔ ¬ k.Dangling p d name id) := by
  refine ⟨fun ho => ?_, fun ho => ?_, fun x y hid hsprite hy => ?_,
    fun x y stage hid hsprite hstage hy => ?_,
    fun _ _ _ _ _ _ _ hload => owner_resolve hd hfirst hs hload⟩
  · obtain ⟨who, n⟩ := storage
    cases ho
    obtain ⟨hsprite, hdeclares, -⟩ := declares_of_target hfirst hs
    exact ⟨hsprite, fun j q => (Kind.keeps_ofData j q).trans hdeclares⟩
  · obtain ⟨who, n⟩ := storage
    cases ho
    by_cases hdangling : k.Dangling p d name id
    · cases hs.symm.trans (resolve_of_dangling hfirst hdangling params)
      exact .inr ⟨rfl, hdangling⟩
    · have hdeclares := (declares_iff_not_dangling hfirst hs).mpr hdangling
      cases hstage : p.stage? with
      | none =>
        rw [hstage] at hdeclares
        cases hdeclares
      | some stage =>
        rw [hstage] at hdeclares
        exact .inl ⟨stage, rfl, fun j q => (Kind.keeps_ofData j q).trans hdeclares⟩
  · subst hid
    rw [← hs]
    refine resolve_of_sprite (nameOf?_eq_some_iff.mpr ⟨d, y, ?_, hy, rfl⟩)
    rw [sprite_of, hsprite]
    rfl
  · subst hid
    rw [← hs]
    refine resolve_of_stage ?_ (nameOf?_eq_some_iff.mpr ⟨stage, y, ?_, hy, rfl⟩)
    · rw [sprite_of, nameOf?_eq_none_iff]
      intro d' hd'
      split at hd'
      · cases hd'
      · next hno =>
        cases hd'
        exact hsprite (Bool.not_eq_true _ ▸ hno)
    · rw [stage_of hfirst, hstage]

end Scope

/-- A cat with a score. -/
def tallying : TargetData where
  name := "Cat"
  vars := .ofEntries [("own", ⟨"score", .null⟩)]

/-- The stage has a score too. -/
def tallyingProject : Project :=
  ⟨[{ isStage := true, name := "Stage", vars := .ofEntries [("total", ⟨"score", .null⟩)] },
    tallying]⟩

/-- A block of the cat that means the stage's score by its id finds it with the stage, although the
    score had another name when the block was written, and the cat has one too. -/
theorem Scope.tallying_kept :
    tallyingProject.targets[1]? = some tallying ∧
    ((Scope.of tallying tallyingProject.stage?).enter []).resolve .variable "points"
      (some "total") = .ofStage "score" ∧
    (∃ stage, tallyingProject.stage? = some stage ∧
      ∀ j q, Kind.variable.keeps (.ofData j stage q) "score" = true) ∧
    ∃ (m : Machine Headless) (t : Turn Headless) (owner : Target),
      Machine.load tallyingProject [{}, {}] {} {} .still = .ok m ∧
      t.machine = m ∧ t.thread.target = 1 ∧
      Act.owner (.ofStage "score") t = .ok owner t ∧ Kind.variable.keeps owner "score" = true := by
  have hd : tallyingProject.targets[1]? = some tallying := rfl
  have hfirst : tallying.isStage = true → tallyingProject.stage? = some tallying := by
    intro h
    cases h
  have hs : ((Scope.of tallying tallyingProject.stage?).enter []).resolve .variable "points"
      (some "total") = .ofStage "score" := by
    decide +kernel
  have hnot : ¬ Kind.variable.Dangling tallyingProject tallying "points" (some "total") := by
    intro h
    cases (h.id "total" rfl).2 _ rfl
  obtain ⟨-, hstage, -, -, hruns⟩ := Scope.resolve_kept hd hfirst hs
  have hloads : (Machine.load tallyingProject [{}, {}] {} ({} : Headless)
      .still).toOption.isSome = true := by
    decide +kernel
  obtain ⟨m, hm⟩ := Option.isSome_iff_exists.mp hloads
  have hload := eq_ok_of_toOption hm
  obtain ⟨owner, howner, hkeeps⟩ :=
    hruns Headless _ _ _ _ m ⟨m, .start 1 0 1, 0, {}⟩ hload rfl rfl
  refine ⟨hd, hs, ?_, m, _, owner, hload, rfl, rfl, howner, hkeeps.mpr hnot⟩
  rcases hstage rfl with hstage | ⟨-, hdangling⟩
  · exact hstage
  · exact absurd hdangling hnot

end Compile

end BlockScript
