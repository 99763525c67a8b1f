import BlockScript.Proofs.Descent
import BlockScript.Proofs.Groups
import BlockScript.Proofs.Pacing

/-!
# How often the backdrop was switched

The stage counts how often its backdrop was switched, by scripts or from outside. The green flag
stops everything and deletes every clone, but it leaves the stage alone, and so it leaves the count
as it is: the stage counts from the start of the project, and not from the latest flag.

* `Machine.switches`: what the stage has counted;
* `Act.exec_unswitched`: most statements leave the count alone;
* `Machine.switches_switchBackdrop`: switching the backdrop adds one to it;
* `World.Chronicle`: the states of a run, with the flags and the switches on the way;
* `World.switches_counted`: the count is the number of switches since the start.
-/

namespace BlockScript

/-! ## 1. What is counted -/

/-- What counts about the backdrop in a run. -/
inductive Milestone
  /-- The green flag. -/
  | flag
  /-- The backdrop is switched. -/
  | switch
  deriving DecidableEq

namespace Milestone

/-- What happened after the latest flag, of what happened, the latest first. -/
def sinceFlag (past : List Milestone) : List Milestone := past.takeWhile (· ≠ .flag)

/-- The latest flag, and what happened before it. -/
def untilFlag (past : List Milestone) : List Milestone := past.dropWhile (· ≠ .flag)

/-- **What was counted from the start was counted since the flag** just if nothing was counted
    before it. -/
theorem count_eq_sinceFlag_iff (past : List Milestone) :
    past.count .switch = (sinceFlag past).count .switch ↔ .switch ∉ untilFlag past := by
  have hsplit : sinceFlag past ++ untilFlag past = past := List.takeWhile_append_dropWhile
  have hcount := congrArg (List.count .switch) hsplit
  rw [List.count_append] at hcount
  rw [← List.count_eq_zero]
  omega

end Milestone

/-- What a request has to do with the backdrop. -/
def Request.milestones {H : Type} : Request H → List Milestone
  | .greenFlag => [.flag]
  | .switchBackdrop _ => [.switch]
  | _ => []

/-- Whether targets may come or go by the statement. -/
def Stmt.recasts : Stmt → Bool
  | .createClone _ | .deleteClone | .stopAll => true
  | _ => false

/-- What a statement has to do with the backdrop. -/
def Stmt.milestones : Stmt → List Milestone
  | .switchBackdrop .. => [.switch]
  | _ => []

/-- How often the target has counted a switch; only the stage counts. -/
def Target.switches (t : Target) : Nat :=
  match t.body with
  | .stage n => n
  | .sprite _ => 0

namespace Target

variable {t t' : Target}

theorem Kin.switches (h : Target.Kin t t') : t'.switches = t.switches := by
  have hb := h.body
  unfold Target.switches
  generalize t.body = b at hb ⊢
  generalize t'.body = b' at hb ⊢
  cases hb <;> rfl

theorem body_of_isStage (h : t.isStage = true) : t.body = .stage t.switches := by
  unfold isStage sprite? at h
  unfold switches
  generalize t.body = b at h ⊢
  cases b with
  | stage => rfl
  | sprite => cases h

theorem switches_ofData (id : TargetId) (d : TargetData) (q : Program) :
    (ofData id d q).switches = 0 := by
  unfold switches ofData bodyOf
  cases d.isStage <;> rfl

theorem switches_countSwitch (h : t.isStage = true) :
    t.countSwitch.switches = t.switches + 1 := by
  have hb := body_of_isStage h
  unfold countSwitch
  rw [hb]
  rfl

end Target

namespace Machine

variable {H : Type} {m m' : Machine H}

/-- How often the stage has counted a switch. -/
def switches (m : Machine H) : Nat := (m.stage?.map Target.switches).getD 0

theorem switches_eq {t : Target} (h : m.stage? = some t) : m.switches = t.switches := by
  rw [switches, h]
  rfl

theorem switches_congr (h : m'.stage? = m.stage?) : m'.switches = m.switches := by
  rw [switches, switches, h]

/-! ## 2. What leaves the count alone -/

/-- Each target has its place as its identity. -/
def Addressed (m : Machine H) : Prop := ∀ id t, m.target? id = some t → t.id = id

/-- The count is as it was, if each target has its place as its identity, and then each has so
    still. -/
def Unswitched (m m' : Machine H) : Prop :=
  m.Addressed → m'.Addressed ∧ m'.switches = m.switches

theorem Unswitched.refl (m : Machine H) : m.Unswitched m := fun h => ⟨h, rfl⟩

theorem Unswitched.trans {a b c : Machine H} (h : a.Unswitched b) (h' : b.Unswitched c) :
    a.Unswitched c := by
  intro ha
  obtain ⟨hb, hsame⟩ := h ha
  obtain ⟨hc, hsame'⟩ := h' hb
  exact ⟨hc, hsame'.trans hsame⟩

theorem stage?_of_eq (htargets : m'.targets = m.targets) (hstage : m'.stage = m.stage) :
    m'.stage? = m.stage? := by
  rw [stage?, stage?, hstage, target?_of_targets htargets]

theorem stage?_trigger (m : Machine H) (e : Event) : (m.trigger e).2.stage? = m.stage? := by
  rw [trigger_eq]
  rfl

theorem Unswitched.of_eq (htargets : m'.targets = m.targets) (hstage : m'.stage = m.stage) :
    m.Unswitched m' := by
  have htarget := target?_of_targets htargets
  exact fun h => ⟨fun id t ht => h id t (htarget id ▸ ht),
    switches_congr (stage?_of_eq htargets hstage)⟩

theorem Aside.unswitched (h : m.Aside m') : m.Unswitched m' := .of_eq h.targets h.stage

theorem unswitched_mapTarget {id : TargetId} {f : Target → Target}
    (hf : ∀ t, m.target? id = some t → Target.Kin t (f t)) : m.Unswitched (m.mapTarget id f) := by
  -- whoever is there afterwards is kin of who was there before
  have hback {j : TargetId} {t : Target} (ht : m.target? j = some t) :
      ∃ t', (m.mapTarget id f).target? j = some t' ∧ Target.Kin t t' := by
    rw [target?_mapTarget, ht]
    split
    · rename_i heq
      exact ⟨f t, rfl, hf t (heq ▸ ht)⟩
    · exact ⟨t, rfl, .refl t⟩
  have hnone {j : TargetId} (ht : m.target? j = none) : (m.mapTarget id f).target? j = none := by
    rw [target?_mapTarget, ht]
    split <;> rfl
  intro h
  constructor
  · intro j t' ht'
    cases ht : m.target? j with
    | none => cases (hnone ht).symm.trans ht'
    | some t =>
      obtain ⟨_, hlives, hkin⟩ := hback ht
      cases hlives.symm.trans ht'
      exact hkin.id.trans (h j t ht)
  · cases hstage : m.stage? with
    | none => exact switches_congr ((hnone hstage).trans hstage.symm)
    | some t =>
      obtain ⟨t', ht', hkin⟩ := hback hstage
      rw [switches_eq hstage, ← hkin.switches]
      exact switches_eq ht'

theorem unswitched_changeCostume {id : TargetId} {t : Target} (ht : m.target? id = some t)
    (v : Value) : m.Unswitched (m.changeCostume t v).2 := by
  intro h
  cases h id t ht
  obtain ⟨dice, pick, -, heq⟩ := m.changeCostume_eq t v
  have haside : m.Aside { m with dice } := ⟨rfl, rfl, rfl, rfl, rfl, rfl, rfl, rfl, rfl⟩
  rw [heq]
  refine haside.unswitched.trans (unswitched_mapTarget fun u hu => ?_) h
  cases ht.symm.trans hu
  exact .dress t v pick

end Machine

namespace Act

variable {H α : Type}

/-- The count on the stage is as it was. -/
def Unswitched (t t' : Turn H) : Prop := t.machine.Unswitched t'.machine

theorem Unswitched.refl (t : Turn H) : Unswitched t t := Machine.Unswitched.refl _

theorem Unswitched.trans (a b c : Turn H) (h : Unswitched a b) (h' : Unswitched b c) :
    Unswitched a c :=
  Machine.Unswitched.trans h h'

theorem unswitched_of_machine {x : Act H α} (h : ∀ t, (x.after t).machine = t.machine) :
    Keeps Unswitched x := by
  intro t
  unfold Unswitched
  rw [h t]
  exact .refl _

theorem Made.unswitched_sensing {r : Prop} {x : Act H α} (h : Made (Sensing r) α x) :
    Keeps Unswitched x := fun t => (h.aside t).unswitched

theorem unswitched_modifyCurrent {f : Target → Target} (hf : ∀ t, Target.Kin t (f t)) :
    Keeps Unswitched (modifyCurrent (H := H) f) := by
  refine .bind .trans (unswitched_of_machine fun t => by rw [after_current]) fun _ t => ?_
  exact Machine.unswitched_mapTarget fun t _ => hf t

theorem unswitched_trigger (wait : Bool) (e : Event) :
    Keeps Unswitched (execEvent (H := H) wait fun m => m.trigger e) := by
  intro t
  unfold after
  rw [execEvent_apply]
  exact Machine.Unswitched.of_eq (t.machine.trigger_eq e ▸ rfl) (t.machine.trigger_eq e ▸ rfl)

variable [Host H]

theorem unswitched_working {r w : Prop} {x : Act H α} (h : Working r w False α x) :
    Keeps Unswitched x := by
  have haside {f : Machine H → Machine H} (h : ∀ m : Machine H, m.Aside (f m)) :
      Keeps Unswitched (modifyMachine f) := fun t => (h t.machine).unswitched
  cases h with
  | sensing h => exact (Made.prim h).unswitched_sensing
  | modifyCurrent f hf => exact unswitched_modifyCurrent hf
  | modifyOwner storage f hf =>
    refine .bind .trans (unswitched_of_machine fun t => by rw [after_owner]) fun _ t => ?_
    exact Machine.unswitched_mapTarget fun t _ => hf t
  | wearCostume v =>
    exact keeps_wearCostume .refl .trans v
      (fun _ _ ht => Machine.unswitched_changeCostume ht v)
      fun id => haside fun m => m.aside_announceCostume id
  | announce id => exact haside fun m => m.aside_announceCostume id
  | registers => exact unswitched_of_machine fun _ => rfl
  | createClone id h | stopOthers h => exact h.elim
  | tellHost | touchScreen | answer | resetTimer =>
    exact haside fun _ => ⟨rfl, rfl, rfl, rfl, rfl, rfl, rfl, rfl, rfl⟩

/-- Whatever is made of small acts of work that neither bring nor remove anybody. -/
theorem Made.unswitched {r w : Prop} {x : Act H α} (h : Made (Moving r w False) α x) :
    Keeps Unswitched x := by
  refine h.keeps .refl .trans fun _ _ hx => ?_
  cases hx with
  | working hx => exact unswitched_working hx
  | modifySprite f hf =>
    exact .bind .trans (unswitched_of_machine fun t => by rw [after_sprite]) fun _ =>
      unswitched_modifyCurrent fun t => .mapSprite t hf

/-- **A statement leaves the count alone** if nobody comes or goes by it, and the backdrop is not
    switched. -/
theorem exec_unswitched {s : Stmt} (hr : s.recasts = false) (hs : s.milestones = []) :
    Keeps Unswitched (exec (H := H) s) := by
  cases s with
  | broadcast message wait =>
    exact .bind .trans (made_evalText message.frees_true).unswitched_sensing fun _ =>
      unswitched_trigger wait _
  | stopOthers => exact fun t => .of_eq rfl rfl
  | switchBackdrop => cases hs
  | createClone | deleteClone | stopAll => cases hr
  | _ =>
    refine keeps_exec .refl .trans (fun _ _ h => (Made.prim h).unswitched) (fun t _ _ => .refl t)
      rfl ?_
    intro h
    cases h

end Act

/-! ## 3. Who comes and goes, and what is sent -/

namespace Machine

variable {H : Type} {originals : List Target} {m m' : Machine H}

/-- The table of targets is in order, and the stage is one of those of the project. -/
structure Staged (originals : List Target) (m : Machine H) : Prop where
  rostered : m.Rostered originals
  stage : ∃ t, originals[m.stage]? = some t ∧ t.isStage = true

namespace Staged

theorem addressed (h : m.Staged originals) : m.Addressed := by
  obtain ⟨clones, hroster⟩ := h.rostered
  exact hroster.id

/-- The stage is there, and is no clone. -/
theorem exists_stage (h : m.Staged originals) :
    ∃ t, m.stage? = some t ∧ t.isStage = true ∧ t.isClone = false := by
  obtain ⟨clones, hroster⟩ := h.rostered
  obtain ⟨t₀, ht₀, hstage⟩ := h.stage
  obtain ⟨t, ht, hremains⟩ := hroster.original _ _ ht₀
  exact ⟨t, ht, hremains.isStage.trans hstage,
    hremains.isClone.trans (hroster.noClone t₀ (List.mem_of_getElem? ht₀))⟩

theorem of_eq (h : m.Staged originals) (hr : m'.Rostered originals) (hstage : m'.stage = m.stage) :
    m'.Staged originals := by
  refine ⟨hr, ?_⟩
  rw [hstage]
  exact h.stage

end Staged

/-- A clone takes a place that is nobody's. -/
theorem switches_createClone (h : m.Staged originals) (of : TargetId) :
    (m.createClone of).2.switches = m.switches := by
  obtain ⟨t, ht, -⟩ := h.exists_stage
  rcases m.target?_createClone of with heq | ⟨_, _, _, _, _, hstage, htarget⟩
  · rw [heq]
  · refine switches_congr ?_
    rw [stage?, hstage]
    refine (htarget m.stage).resolve_right ?_
    rintro ⟨hnext, -⟩
    have hnone := h.rostered.registered.target?_nextId
    rw [← hnext] at hnone
    cases hnone.symm.trans ht

/-- Only clones are deleted. -/
theorem switches_deleteClone (h : m.Staged originals) (id : TargetId) :
    (m.deleteClone id).2.switches = m.switches := by
  obtain ⟨t, ht, -, hno⟩ := h.exists_stage
  rcases m.deleteClone_cases id with heq | ⟨u, hu, hclone, heq⟩
  · rw [heq]
  · refine switches_congr ?_
    have hne : id ≠ m.stage := by
      rintro rfl
      cases hu.symm.trans ht
      cases hclone.symm.trans hno
    rw [heq]
    show (m.targets.set id none)[m.stage]?.join = m.targets[m.stage]?.join
    rw [List.getElem?_set_ne hne]

variable [Host H]

theorem Staged.aside (h : m.Staged originals) (ha : m.Aside m') : m'.Staged originals :=
  h.of_eq (h.rostered.recast (.stays ha.stays)) ha.stage

/-- The stage stays where everything stops. -/
theorem switches_stopAll (h : m.Staged originals) : m.stopAll.switches = m.switches := by
  obtain ⟨t, ht, -, hno⟩ := h.exists_stage
  refine switches_congr ?_
  show m.stopAll.target? m.stage = m.target? m.stage
  rw [target?_stopAll, show m.target? m.stage = some t from ht]
  simp [Option.filter, hno]

/-- **Switching the backdrop adds one to the count**, whichever backdrop shows then. -/
theorem switches_switchBackdrop (h : m.Staged originals) (v : Value) :
    (m.switchBackdrop v).2.switches = m.switches + 1 := by
  obtain ⟨stage, hstage, hisStage, -⟩ := h.exists_stage
  have hid : stage.id = m.stage := h.addressed _ _ hstage
  obtain ⟨dice, pick, -, heq⟩ := m.changeCostume_eq stage v
  have hworn : Target.Kin stage (stage.dress v pick) := .dress stage v pick
  have hshown : ((m.changeCostume stage v).2.mapTarget stage.id Target.countSwitch).stage? =
      some (stage.dress v pick).countSwitch := by
    have hfound : ({ m with dice } : Machine H).target? m.stage = some stage := hstage
    rw [heq]
    show ((mapTarget _ stage.id _).mapTarget stage.id _).target? m.stage = _
    rw [target?_mapTarget, target?_mapTarget, if_pos hid, if_pos hid, hfound]
    rfl
  have hsent : (m.switchBackdrop v).2.stage? = some (stage.dress v pick).countSwitch := by
    unfold switchBackdrop
    rw [hstage]
    dsimp only
    have htold := aside_announceCostume
      ((m.changeCostume stage v).2.mapTarget stage.id Target.countSwitch) stage.id
    rw [stage?_trigger, stage?_of_eq htold.targets htold.stage]
    exact hshown
  rw [switches_eq hsent, switches_eq hstage, ← hworn.switches]
  exact Target.switches_countSwitch (hworn.isStage.trans hisStage)

end Machine

/-! ## 4. Statements and requests -/

namespace Act

variable {H : Type} [Host H] {originals : List Target} {t t' : Turn H}

/-- **A statement that switches the backdrop does so once**, if its input has a value. -/
theorem exec_switchBackdrop_eq_ok {backdrop : Expr} {wait : Bool} {c : Control}
    (h : exec (.switchBackdrop backdrop wait) t = .ok c t') :
    ∃ v m₀, t.machine.Aside m₀ ∧ t'.machine = (m₀.switchBackdrop v).2 := by
  obtain ⟨v, t₁, h₁, h⟩ := bind_eq_ok.mp h
  have haside := (made_eval backdrop.frees_true).aside.of_ok h₁
  obtain ⟨_, t₂, h₂, h⟩ := bind_eq_ok.mp h
  cases h₂
  rw [execEvent_apply] at h
  cases h
  exact ⟨v, { t₁.machine with visual := true },
    haside.trans ⟨rfl, rfl, rfl, rfl, rfl, rfl, rfl, rfl, rfl⟩, rfl⟩

/-- No switch of the backdrop is a jump. -/
theorem milestones_of_jump {s : Stmt} {l : Label} (h : exec s t = .ok (.leave (.jump l)) t') :
    s.milestones = [] := by
  cases s with
  | switchBackdrop backdrop wait =>
    obtain ⟨_, _, _, h⟩ := bind_eq_ok.mp h
    obtain ⟨_, t₂, _, h⟩ := bind_eq_ok.mp h
    rw [execEvent_apply] at h
    split at h <;> cases h
  | _ => rfl

/-- **A statement adds to the count what it switches.** -/
theorem switches_exec (hm : t.machine.Staged originals) {s : Stmt} {c : Control}
    (h : exec s t = .ok c t') :
    t'.machine.switches = t.machine.switches + s.milestones.count .switch := by
  cases s with
  | switchBackdrop backdrop wait =>
    obtain ⟨v, m₀, haside, heq⟩ := exec_switchBackdrop_eq_ok h
    rw [heq, Machine.switches_switchBackdrop (hm.aside haside), (haside.unswitched hm.addressed).2]
    rfl
  | createClone of =>
    obtain ⟨name, t₁, h₁, h⟩ := bind_eq_ok.mp h
    have haside := (made_evalText of.frees_true).aside.of_ok h₁
    obtain ⟨_, t₂, h₂, h⟩ := bind_eq_ok.mp h
    cases h
    rw [execClone_apply] at h₂
    cases h₂
    have hsame := (haside.unswitched hm.addressed).2
    cases sourceOf? name t₁ with
    | none => exact hsame
    | some id => exact (Machine.switches_createClone (hm.aside haside) id).trans hsame
  | deleteClone =>
    rw [exec_deleteClone_apply] at h
    cases h
    exact Machine.switches_deleteClone hm _
  | stopAll =>
    rw [exec_stopAll_apply] at h
    cases h
    exact Machine.switches_stopAll hm
  | _ => exact ((exec_unswitched rfl rfl).of_ok h hm.addressed).2

/-- A statement that fails has switched nothing. -/
theorem switches_error (hm : t.machine.Staged originals) {s : Stmt} {e : Fault}
    (h : exec s t = .error e t') : t'.machine.switches = t.machine.switches := by
  have hinput {α : Type} {x : Act H α} (hx : Made (Sensing True) α x)
      (h : x t = .error e t') : t'.machine.switches = t.machine.switches :=
    ((hx.aside.of_error h).unswitched hm.addressed).2
  cases s with
  | switchBackdrop backdrop wait =>
    simp only [exec, bind_apply] at h
    split at h
    · simp only [touchScreen, modifyMachine_apply, execEvent_apply] at h
      cases h
    · rename_i herror
      cases h
      exact hinput (made_eval backdrop.frees_true) herror
  | createClone of =>
    simp only [exec, bind_apply] at h
    split at h
    · rw [execClone_apply] at h
      cases h
    · rename_i herror
      cases h
      exact hinput (made_evalText of.frees_true) herror
  | deleteClone =>
    rw [exec_deleteClone_apply] at h
    cases h
  | stopAll =>
    rw [exec_stopAll_apply] at h
    cases h
  | _ => exact ((exec_unswitched rfl rfl).of_error h hm.addressed).2

end Act

/-- **A request adds to the count what it switches.** The flag leaves the count as it is. -/
theorem Request.switches {H : Type} [Host H] {originals : List Target} {r : Request H}
    {f : Machine H → Machine H} (hr : r.change? = some f) {m : Machine H}
    (hm : m.Staged originals) :
    (f m).switches = m.switches + r.milestones.count .switch := by
  have htrigger (m : Machine H) (e : Event) : (m.trigger e).2.switches = m.switches :=
    Machine.switches_congr (m.stage?_trigger e)
  cases r <;> cases hr
  case greenFlag.refl =>
    exact (htrigger m.stopAll.resetTimer .flag).trans (Machine.switches_stopAll hm)
  case trigger.refl e => exact htrigger m e
  case triggerFor.refl id e =>
    show (m.triggerFor id e).2.switches = m.switches
    rw [Machine.triggerFor_eq]
    rfl
  case switchBackdrop.refl v => exact Machine.switches_switchBackdrop hm v
  case createClone.refl of => exact Machine.switches_createClone hm of
  case deleteClone.refl id => exact Machine.switches_deleteClone hm id
  case stopAll.refl => exact Machine.switches_stopAll hm
  case stopTarget.refl | halt.refl | resetTimer.refl | attend.refl => rfl

/-! ## 5. Runs -/

/-- When a project is loaded, nothing has been counted. -/
theorem Machine.staged_load {H : Type} {p : Project} {programs : List Program} {o : Options}
    {host : H} {s : Surroundings} {m : Machine H}
    (h : Machine.load p programs o host s = .ok m) :
    m.switches = 0 ∧ ∃ originals, m.Staged originals := by
  obtain ⟨originals, -, hroster, hat, -⟩ := Machine.roster_load h
  obtain ⟨i, d, q, -, hd, hfound⟩ := Machine.stage?_load h
  have hisStage : d.isStage = true := List.find?_some hd
  refine ⟨?_, originals, ⟨[], hroster⟩, _, (hat m.stage).symm.trans hfound, ?_⟩
  · rw [Machine.switches_eq hfound, Target.switches_ofData]
  · rw [Target.isStage_ofData]
    exact hisStage

namespace World

variable {H : Type}

/-- Whether nothing is being done. -/
def isRest : World H → Bool
  | .rest _ => true
  | _ => false

/-- What a step has to do with the backdrop while a frame is under way: what its statement has,
    unless the turn fails there and the machine comes to rest. -/
def milestones : World H → World H → List Milestone
  | .turn _ _ (s :: _) _ _, .turn .. => s.milestones
  | .turn _ _ (s :: _) _ _, .pass .. => s.milestones
  | _, _ => []

variable [Host H]

/-- The states that a project comes to, each with what happened to the backdrop since the project
    was loaded, the latest first. -/
inductive Chronicle (m : Machine H) : List Milestone → World H → Prop
  | load : Chronicle m [] (.rest m)
  /-- Something is asked for. -/
  | request {past : List Milestone} {m' : Machine H} {r : Request H} {f : Machine H → Machine H}
      (hw : Chronicle m past (.rest m')) (h : r.change? = some f) :
      Chronicle m (r.milestones ++ past) (.rest (f m'))
  /-- A step of a frame, from its start to its end. -/
  | frame {past : List Milestone} {w w' : World H} (hw : Chronicle m past w) (h : Step .cut w w')
      (hrest : (w.isRest && w'.isRest) = false) : Chronicle m (w.milestones w' ++ past) w'
  /-- A frame has no time for a pass. -/
  | lapse {past : List Milestone} {m' : Machine H} (hw : Chronicle m past (.rest m')) :
      Chronicle m past (.rest { m' with clock := m'.clock.advance, frame := m'.frame + 1 })
  | setClock {past : List Milestone} {m' : Machine H} (hw : Chronicle m past (.rest m'))
      (c : Clock) : Chronicle m past (.rest (m'.setClock c))

variable {m : Machine H} {w w' : World H} {past : List Milestone} {originals : List Target}

theorem Chronicle.arises (h : Chronicle m past w) : Arises m w := by
  induction h with
  | load => exact .refl
  | request _ h ih => exact ih.tail (.request h _)
  | frame _ h _ ih => exact ih.tail h
  | lapse _ ih => exact ih.tail (.lapse _)
  | setClock _ c ih => exact ih.tail (.setClock trivial _ c)

/-- **Each state of a project has a chronicle.** -/
theorem Arises.exists_chronicle (h : Arises m w) : ∃ past, Chronicle m past w := by
  induction h with
  | refl => exact ⟨[], .load⟩
  | @tail w w' _ h ih =>
    obtain ⟨past, hpast⟩ := ih
    cases hrest : w.isRest && w'.isRest with
    | false => exact ⟨_, .frame hpast h hrest⟩
    | true =>
      cases h with
      | request hr m => exact ⟨_, .request hpast hr⟩
      | lapse m => exact ⟨_, .lapse hpast⟩
      | setClock _ m c => exact ⟨_, .setClock hpast c⟩
      | _ => cases hrest

theorem Arises.staged (h : Arises m w) (hm : m.Staged originals) : w.machine.Staged originals :=
  hm.of_eq (hm.rostered.recasts (h.recasts hm.rostered)) h.stage_eq

/-- **A step of a frame adds to the count what it switches.** -/
theorem Step.switches {R : Rules} (h : Step R w w') (hw : w.machine.Staged originals)
    (hrest : (w.isRest && w'.isRest) = false) :
    w'.machine.switches = w.machine.switches + (w.milestones w').count .switch := by
  cases h with
  | request | setClock | lapse => cases hrest
  | start | skip | enter | refuse | finish | again | close => rfl
  | onward hexec | jump hexec | leave hexec => exact Act.switches_exec hw hexec
  | @fail t t' code hfails l length seats =>
    have hnothing : (World.milestones (.turn t l code length seats)
        (.rest (t'.machine.settle t'.seat .empty))).count .switch = 0 := by
      cases code <;> rfl
    rw [hnothing]
    show t'.machine.switches = t.machine.switches
    cases hfails with
    | fault hexec => exact Act.switches_error hw hexec
    | stray hexec =>
      rw [Act.switches_exec hw hexec, Act.milestones_of_jump hexec]
      rfl
    | exhausted => rfl

/-- **The stage counts the switches since the start.** -/
theorem Chronicle.switches (h : Chronicle m past w) (hm : m.Staged originals) :
    w.machine.switches = m.switches + past.count .switch := by
  induction h with
  | load => rfl
  | request hw hr ih =>
    have hstep := Request.switches hr (hw.arises.staged hm)
    rw [List.count_append]
    exact hstep.trans (by rw [ih]; omega)
  | frame hw h hrest ih =>
    rw [List.count_append, h.switches (hw.arises.staged hm) hrest, ih]
    omega
  | lapse _ ih => exact ih
  | setClock _ _ ih => exact ih

/-- **The stage counts from the start, and the flag changes nothing about it.** Whatever the
    programs are, each state of each run has a chronicle, and in each the stage has counted how
    often the backdrop was switched, by scripts or from outside, since the project was loaded. This
    is the number of switches since the latest flag just if there was none before that flag. -/
theorem switches_counted {p : Project} {programs : List Program} {o : Options} {host : H}
    {s : Surroundings} (hload : Machine.load p programs o host s = .ok m) :
    (∀ w, Arises m w ↔ ∃ past, Chronicle m past w) ∧
    ∀ past w, Chronicle m past w → ∃ stage n,
      w.machine.stage? = some stage ∧ stage.body = .stage n ∧ n = past.count .switch ∧
      (n = (Milestone.sinceFlag past).count .switch ↔ .switch ∉ Milestone.untilFlag past) := by
  obtain ⟨hzero, originals, hm⟩ := Machine.staged_load hload
  refine ⟨fun w => ⟨Arises.exists_chronicle, fun h => h.elim fun _ hc => hc.arises⟩,
    fun past w h => ?_⟩
  obtain ⟨stage, hstage, hisStage, -⟩ := (h.arises.staged hm).exists_stage
  have hcount : stage.switches = past.count .switch := by
    rw [← Machine.switches_eq hstage, h.switches hm, hzero, Nat.zero_add]
  refine ⟨stage, _, hstage, Target.body_of_isStage hisStage, hcount, ?_⟩
  rw [hcount]
  exact Milestone.count_eq_sinceFlag_iff past

/-- The backdrop is switched from outside, and then the flag is clicked. -/
theorem Chronicle.switch_flag (m : Machine H) (v : Value) :
    Chronicle m [.flag, .switch] (.rest (m.switchBackdrop v).2.greenFlag.2) :=
  .request (r := .greenFlag) (.request (r := .switchBackdrop v) .load rfl) rfl

/-- So many steps of frames, with what happens to the backdrop on the way. -/
def follow? : Nat → List Milestone → World H → Option (List Milestone × World H)
  | 0, past, w => some (past, w)
  | steps + 1, past, w => (w.next? .cut).bind fun w' =>
    if w.isRest && w'.isRest then none else follow? steps (w.milestones w' ++ past) w'

theorem Chronicle.follow? {steps : Nat} {past' : List Milestone} (h : Chronicle m past w)
    (hfollow : follow? steps past w = some (past', w')) : Chronicle m past' w' := by
  induction steps generalizing past w with
  | zero =>
    cases hfollow
    exact h
  | succ steps ih =>
    obtain ⟨w₁, hnext, hfollow⟩ := Option.bind_eq_some_iff.mp hfollow
    split at hfollow
    · cases hfollow
    · next hrest => exact ih (h.frame (step_next? hnext) (by simpa using hrest)) hfollow

end World

/-- A stage with two backdrops, and a cat. -/
def twilightProject : Project :=
  ⟨[{ isStage := true, name := "Stage", costumes := ["day", "night"] }, { name := "Cat" }]⟩

/-- With the flag it becomes night. -/
def nightfall : Program where
  continuations := [⟨0, [.switchBackdrop (.const (.text "night")) false, .return]⟩]
  listeners := [(.flag, [0])]

/-- It is made night from outside, and again by the script that the flag starts. -/
def nightfall? : Option (Machine Headless × List Milestone × World Headless) :=
  (Machine.load twilightProject [{}, nightfall] {} {} .still).toOption.bind fun m =>
    ((World.rest (m.switchBackdrop (.text "night")).2.greenFlag.2).follow? 3 [.flag, .switch]).map
      (Prod.mk m)

/-- The stage has counted both switches, and one of them came before the flag. -/
theorem World.nightfall_counted :
    ∃ (m : Machine Headless) (past : List Milestone) (w : World Headless) (stage : Target),
      Machine.load twilightProject [{}, nightfall] {} {} .still = .ok m ∧ Arises m w ∧
      Chronicle m past w ∧ past = [.switch, .flag, .switch] ∧
      w.machine.stage? = some stage ∧ stage.body = .stage 2 := by
  have hrun : nightfall?.map (fun x => x.2.1) = some [.switch, .flag, .switch] := by
    decide +kernel
  obtain ⟨⟨m, past, w⟩, hx, hpast⟩ := Option.map_eq_some_iff.mp hrun
  obtain ⟨m₀, hload, hx⟩ := Option.bind_eq_some_iff.mp hx
  obtain ⟨⟨past₀, w₀⟩, hfollow, heq⟩ := Option.map_eq_some_iff.mp hx
  cases heq
  have hload := eq_ok_of_toOption hload
  have hflagged := Chronicle.switch_flag m (.text "night")
  have hw := hflagged.follow? hfollow
  obtain ⟨harises, hcounted⟩ := switches_counted hload
  obtain ⟨stage, n, hstage, hbody, hn, -⟩ := hcounted past w hw
  refine ⟨m, past, w, stage, hload, (harises w).mpr ⟨past, hw⟩, hw, hpast, hstage, ?_⟩
  rw [hbody, hn, show past = _ from hpast]
  rfl

/-- **The flag does not start the count anew.** The backdrop is switched and then the flag is
    clicked; since then the backdrop was not switched, and yet the stage has counted a switch. -/
theorem World.switches_since_start :
    ∃ (m m' : Machine Headless) (stage : Target),
      Player.loadProject twilightProject {} {} .still = .ok m ∧
      Chronicle m [.flag, .switch] (.rest m') ∧ Milestone.sinceFlag [.flag, .switch] = [] ∧
      m'.stage? = some stage ∧ stage.body = .stage 1 := by
  have hrun : (Player.loadProject twilightProject {} ({} : Headless) .still).toOption.map
      (fun m => (m.switchBackdrop (.text "night")).2.greenFlag.2.switches) = some 1 := by
    decide +kernel
  obtain ⟨m, hm, hswitches⟩ := Option.map_eq_some_iff.mp hrun
  have hload := eq_ok_of_toOption hm
  obtain ⟨programs, -, hload'⟩ := except_bind_eq_ok.mp hload
  obtain ⟨-, originals, hstaged⟩ := Machine.staged_load hload'
  have hflagged := Chronicle.switch_flag m (.text "night")
  obtain ⟨stage, hstage, hisStage, -⟩ := (hflagged.arises.staged hstaged).exists_stage
  refine ⟨m, _, stage, hload, hflagged, rfl, hstage, ?_⟩
  have hone : stage.switches = 1 := (Machine.switches_eq hstage).symm.trans hswitches
  rw [Target.body_of_isStage hisStage, hone]

end BlockScript
