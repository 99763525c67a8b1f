import BlockScript.Proofs.Bystanders
import BlockScript.Proofs.Successions

/-!
# From which data a target comes

Whoever lives while a project runs is what one of its targets became when it was loaded, or a clone
of such a target, perhaps through other clones. It has the program of that target for good, its
costumes and its sounds; and the stage of the machine is the first stage of the project for ever.

* `Target.Embodies`: what a target has from the data of the project;
* `Machine.stage_of_change`, `World.Step.stage`: the stage is never another one;
* `Machine.Peopled`: whoever lives comes from data of the project;
* `World.Arises.peopled`, `World.Arises.exists_stage`: so it is in every state of a project at work.
-/

namespace BlockScript

/-! ## 1. Data and targets -/

/-- The target is what the data became, or a clone of it: all that it has from there for good. -/
structure Target.Embodies (p : Project) (d : TargetData) (t : Target) : Prop where
  mem : d ∈ p.targets
  program : d.compile p.stage? = .ok t.program
  costumes : t.costumes = d.costumes
  sounds : t.sounds = d.sounds
  isStage : t.isStage = d.isStage

namespace Target

variable {p : Project} {d : TargetData} {t t' : Target}

theorem Embodies.remains (h : t.Embodies p d) (hr : Remains t t') : t'.Embodies p d :=
  ⟨h.mem, by rw [hr.program]; exact h.program, hr.costumes.trans h.costumes,
    hr.sounds.trans h.sounds, hr.isStage.trans h.isStage⟩

theorem Embodies.clone? (h : t.Embodies p d) {id : TargetId} (hc : t.clone? id = some t') :
    t'.Embodies p d := by
  have hcopied := copied_clone? hc
  refine ⟨h.mem, by rw [hcopied.program]; exact h.program, hcopied.costumes.trans h.costumes,
    hcopied.sounds.trans h.sounds, ?_⟩
  obtain ⟨s, hs, rfl⟩ := Option.map_eq_some_iff.mp hc
  rw [← h.isStage, hcopied.sprite]
  rfl

theorem isStage_ofData (id : TargetId) (d : TargetData) (program : Program) :
    (ofData id d program).isStage = d.isStage := by
  unfold isStage sprite? ofData bodyOf
  cases d.isStage <;> rfl

end Target

/-- The programs of a project stand at the places of their data. -/
theorem compile_of_mem_zip {p : Project} {programs : List Program} (h : p.compile = .ok programs) :
    ∀ x ∈ p.targets.zip programs, x.1.compile p.stage? = .ok x.2 := by
  have hzip (l : List TargetData) : ∀ {bs : List Program},
      l.mapM (·.compile p.stage?) = .ok bs → ∀ x ∈ l.zip bs, x.1.compile p.stage? = .ok x.2 := by
    induction l with
    | nil =>
      intro bs _ x hx
      cases hx
    | cons d rest ih =>
      intro bs hbs x hx
      rw [List.mapM_cons] at hbs
      obtain ⟨b, hb, hbs⟩ := except_bind_eq_ok.mp hbs
      obtain ⟨bs', hbs', hbs⟩ := except_bind_eq_ok.mp hbs
      cases hbs
      rcases List.mem_cons.mp hx with rfl | hx
      · exact hb
      · exact ih hbs' x hx
  exact hzip p.targets h

namespace Machine

variable {H : Type}

/-! ## 2. The stage -/

section Stage

variable [Host H] {m m' : Machine H}

/-- **No change makes another target the stage.** -/
theorem stage_of_change {own : TargetId} {seat : Nat} {s : Stmt} (h : Change own seat s m m') :
    m'.stage = m.stage := by
  cases h with
  | aside h => exact h.stage
  | modify | stopOthers | stopAll => rfl
  | trigger _ _ e => rw [trigger_eq]
  | createClone _ of =>
    rcases m.target?_createClone of with heq | ⟨_, _, _, _, _, hstage, _⟩
    · rw [heq]
    · exact hstage
  | deleteClone =>
    rcases m.deleteClone_cases own with heq | ⟨_, _, _, heq⟩
    · rw [heq]
    · rw [heq]
      rfl

theorem stage_of_alters {own : TargetId} {seat : Nat} {s : Stmt} (h : Alters own seat s m m') :
    m'.stage = m.stage := by
  induction h with
  | refl => rfl
  | tail _ hc ih => exact (stage_of_change hc).trans ih

theorem stage_of_request {r : Request H} {f : Machine H → Machine H} (hr : r.change? = some f)
    (m : Machine H) : (f m).stage = m.stage := by
  have htrigger (m : Machine H) (e : Event) : (m.trigger e).2.stage = m.stage := by
    rw [trigger_eq]
  cases r <;> cases hr
  case greenFlag.refl => exact htrigger m.stopAll.resetTimer .flag
  case trigger.refl e => exact htrigger m e
  case triggerFor.refl id e =>
    show (m.triggerFor id e).2.stage = m.stage
    rw [triggerFor_eq]
  case switchBackdrop.refl v =>
    have hswitch : Alters 0 0 (.switchBackdrop (.const v) false) m (m.switchBackdrop v).2 :=
      alters_switchBackdrop rfl m v
    exact stage_of_alters hswitch
  case createClone.refl of =>
    have hcreate : Change 0 0 (.createClone (.text "")) m (m.createClone of).2 := .createClone m of
    exact stage_of_change hcreate
  case deleteClone.refl id =>
    have hdelete : Change id 0 .deleteClone m (m.deleteClone id).2 := .deleteClone m
    exact stage_of_change hdelete
  case stopAll.refl | stopTarget.refl | halt.refl | resetTimer.refl | attend.refl => rfl

end Stage

/-! ## 3. Who lives -/

section Descends

variable {m m' : Machine H}

/-- Whoever lives is what some data of the project became, or a clone of it. -/
def Peopled (p : Project) (m : Machine H) : Prop :=
  ∀ id t, m.target? id = some t → ∃ d, t.Embodies p d

/-- **Whatever happens to the table of targets**, who lives afterwards has what he has from one who
    lived before. -/
theorem Peopled.recast [Host H] {p : Project} (h : m.Peopled p) (hr : Recast m m') :
    m'.Peopled p := by
  intro id t ht
  cases hr with
  | stays hs =>
    obtain ⟨t₀, ht₀, hremains⟩ := hs.back ht
    obtain ⟨d, hd⟩ := h id t₀ ht₀
    exact ⟨d, hd.remains hremains⟩
  | create of =>
    rcases m.target?_createClone of with heq | ⟨source, clone, hsource, hclone, -, -, hat⟩
    · rw [heq] at ht
      exact h id t ht
    · rcases hat id with heq | ⟨-, heq⟩
      · exact h id t (heq ▸ ht)
      · cases heq.symm.trans ht
        obtain ⟨d, hd⟩ := h of source hsource
        exact ⟨d, hd.clone? hclone⟩
  | delete gone =>
    rcases m.deleteClone_cases gone with heq | ⟨_, _, _, heq⟩
    · rw [heq] at ht
      exact h id t ht
    · rw [heq] at ht
      refine h id t ?_
      unfold target? at ht ⊢
      dsimp only at ht
      rw [List.getElem?_set] at ht
      split at ht
      · split at ht <;> cases ht
      · exact ht
  | clear =>
    rw [target?_stopAll] at ht
    exact h id t (Option.filter_eq_some_iff.mp ht).1

theorem Peopled.recasts [Host H] {p : Project} (h : m.Peopled p)
    (hr : Relation.ReflTransGen Recast m m') : m'.Peopled p := by
  induction hr with
  | refl => exact h
  | tail _ hstep ih => exact ih.recast hstep

/-- The targets of a machine that is loaded, with the data that they come from. -/
theorem exists_data_of_load {p : Project} {programs : List Program} {o : Options} {host : H}
    {s : Surroundings} (h : Machine.load p programs o host s = .ok m) :
    programs.length = p.targets.length ∧ ∃ targets : List Target, ∃ stage,
      m.targets = targets.map some ∧ targets.find? Target.isStage = some stage ∧
      m.stage = stage.id ∧
      ∀ i : Nat, targets[i]? = (p.targets.zip programs)[i]?.map fun x => .ofData i x.1 x.2 := by
  unfold Machine.load at h
  obtain ⟨options, -, h⟩ := except_bind_eq_ok.mp h
  dsimp only at h
  split at h
  · obtain ⟨_, hthrow, -⟩ := except_bind_eq_ok.mp h
    cases hthrow
  rename_i hlength
  split at h
  · cases h
  rename_i stage hstage
  cases h
  refine ⟨not_not.mp hlength, _, stage, rfl, hstage, rfl, fun i => ?_⟩
  rw [List.getElem?_map, List.getElem?_zipIdx, Option.map_map, Nat.zero_add]
  rfl

/-- Who lives when a project is loaded is what the data in his place became. -/
theorem target?_load {p : Project} {programs : List Program} {o : Options} {host : H}
    {s : Surroundings} (h : Machine.load p programs o host s = .ok m) (i : TargetId) :
    m.target? i = (p.targets.zip programs)[i]?.map fun x => .ofData i x.1 x.2 := by
  obtain ⟨-, targets, -, htargets, -, -, hat⟩ := exists_data_of_load h
  unfold target?
  rw [htargets, List.getElem?_map, ← hat i]
  cases targets[i]? <;> rfl

/-- Each data of the project becomes a target. -/
theorem exists_target?_load {p : Project} {programs : List Program} {o : Options} {host : H}
    {s : Surroundings} (h : Machine.load p programs o host s = .ok m) {i : Nat} {d : TargetData}
    (hd : p.targets[i]? = some d) : ∃ q, m.target? i = some (.ofData i d q) := by
  obtain ⟨hlength, -⟩ := exists_data_of_load h
  obtain ⟨hi, -⟩ := List.getElem?_eq_some_iff.mp hd
  have hpair : (p.targets.zip programs)[i]? = some (d, programs[i]) :=
    List.getElem?_zip_eq_some.mpr ⟨hd, List.getElem?_eq_getElem (by omega)⟩
  exact ⟨programs[i], by rw [target?_load h, hpair]; rfl⟩

/-- **The stage comes from the first stage of the project.** -/
theorem stage?_load {p : Project} {programs : List Program} {o : Options} {host : H}
    {s : Surroundings} (h : Machine.load p programs o host s = .ok m) :
    ∃ i d q, (p.targets.zip programs)[i]? = some (d, q) ∧ p.stage? = some d ∧
      m.stage? = some (.ofData i d q) := by
  obtain ⟨-, targets, stage, htargets, hfind, hstage, hat⟩ := exists_data_of_load h
  obtain ⟨hisStage, i, hi, heq, hbefore⟩ := List.find?_eq_some_iff_getElem.mp hfind
  have hplace : targets[i]? = some stage := by
    rw [List.getElem?_eq_getElem hi, heq]
  obtain ⟨⟨d, q⟩, hpair, rfl⟩ := Option.map_eq_some_iff.mp ((hat i).symm.trans hplace)
  obtain ⟨hd, -⟩ := List.getElem?_zip_eq_some.mp hpair
  obtain ⟨hlt, hget⟩ := List.getElem?_eq_some_iff.mp hd
  refine ⟨i, d, q, hpair, ?_, ?_⟩
  · rw [Target.isStage_ofData] at hisStage
    refine List.find?_eq_some_iff_getElem.mpr ⟨hisStage, i, hlt, hget, fun j hj => ?_⟩
    -- whoever stands before it in the project stands before it in the machine
    have hj' : targets[j]? = some targets[j] := List.getElem?_eq_getElem (by omega)
    obtain ⟨⟨d', q'⟩, hpair', heq'⟩ := Option.map_eq_some_iff.mp ((hat j).symm.trans hj')
    obtain ⟨hd', -⟩ := List.getElem?_zip_eq_some.mp hpair'
    have hno := hbefore j hj
    rw [← heq', Target.isStage_ofData] at hno
    rw [(List.getElem?_eq_some_iff.mp hd').2]
    exact hno
  · rw [stage?, hstage, target?_load h]
    show (p.targets.zip programs)[i]?.map _ = _
    rw [hpair]
    rfl

/-- **When a project is loaded**, its data become its targets, and its first stage the stage. -/
theorem peopled_load {p : Project} {o : Options} {host : H} {s : Surroundings}
    (hload : Player.loadProject p o host s = .ok m) :
    m.Peopled p ∧ ∃ t d, m.stage? = some t ∧ p.stage? = some d ∧ t.Embodies p d := by
  obtain ⟨programs, hcompile, hload⟩ := except_bind_eq_ok.mp hload
  have hembodies (i : Nat) {d : TargetData} {q : Program}
      (hpair : (p.targets.zip programs)[i]? = some (d, q)) : (Target.ofData i d q).Embodies p d := by
    have hcompiles := compile_of_mem_zip hcompile (d, q) (List.mem_of_getElem? hpair)
    obtain ⟨hd, -⟩ := List.getElem?_zip_eq_some.mp hpair
    exact ⟨List.mem_of_getElem? hd, hcompiles, rfl, rfl, Target.isStage_ofData i d q⟩
  refine ⟨fun id t ht => ?_, ?_⟩
  · rw [target?_load hload] at ht
    obtain ⟨⟨d, q⟩, hpair, rfl⟩ := Option.map_eq_some_iff.mp ht
    exact ⟨d, hembodies id hpair⟩
  · obtain ⟨i, d, q, hpair, hd, hstage⟩ := stage?_load hload
    exact ⟨_, d, hstage, hd, hembodies i hpair⟩

end Descends

end Machine

namespace World

variable {H : Type} [Host H]

/-- A step makes no other target the stage. -/
theorem Step.stage {R : Rules} {w w' : World H} (h : Step R w w') :
    w'.machine.stage = w.machine.stage := by
  have hexec {s : Stmt} {t t' : Turn H} {c : Control} (h : Act.exec s t = .ok c t') :
      t'.machine.stage = t.machine.stage :=
    Machine.stage_of_alters ((Act.exec_alters s).of_ok h).machine
  cases h with
  | request hr m => exact Machine.stage_of_request hr m
  | setClock | start | lapse | skip | enter | refuse | finish | again | close => rfl
  | onward h | jump h | leave h => exact hexec h
  | @fail t t' code hfails =>
    obtain ⟨s, halters⟩ := hfails.alters
    show t'.machine.stage = t.machine.stage
    exact Machine.stage_of_alters halters.machine

variable {p : Project} {o : Options} {host : H} {s : Surroundings} {m : Machine H} {w : World H}

theorem Arises.stage_eq (h : Arises m w) : w.machine.stage = m.stage := by
  induction h with
  | refl => rfl
  | tail _ hstep ih => exact hstep.stage.trans ih

/-- **In every state whoever lives comes from data of the project.** -/
theorem Arises.peopled (hload : Player.loadProject p o host s = .ok m) (h : Arises m w) :
    w.machine.Peopled p := by
  obtain ⟨programs, -, hload'⟩ := except_bind_eq_ok.mp hload
  obtain ⟨originals, -, hroster, -⟩ := Machine.roster_load hload'
  exact (Machine.peopled_load hload).1.recasts (h.recasts ⟨[], hroster⟩)

/-- **In every state the stage is the first stage of the project.** -/
theorem Arises.exists_stage (hload : Player.loadProject p o host s = .ok m) (h : Arises m w) :
    ∃ t d, w.machine.stage? = some t ∧ p.stage? = some d ∧ t.Embodies p d := by
  obtain ⟨programs, -, hload'⟩ := except_bind_eq_ok.mp hload
  obtain ⟨originals, -, hroster, hat, -⟩ := Machine.roster_load hload'
  obtain ⟨-, t, d, ht, hd, hembodies⟩ := Machine.peopled_load hload
  obtain ⟨clones, hroster'⟩ := Machine.Rostered.recasts ⟨[], hroster⟩ (h.recasts ⟨[], hroster⟩)
  obtain ⟨t', ht', hremains⟩ := hroster'.original m.stage t ((hat m.stage).symm.trans ht)
  refine ⟨t', d, ?_, hd, hembodies.remains hremains⟩
  rw [Machine.stage?, h.stage_eq]
  exact ht'

end World

end BlockScript
