import BlockScript.Proofs.Visits

/-!
# Groups of threads

Each event gives out a group, and the threads that it starts are of that group. No other thread ever
is, so that a group only loses threads.

* `Signal`: what sends an event, and returns the group;
* `Machine.Under`: a script has a thread of a group, which waits or is at work;
* `World.Step.calls`: a step that gives out a group sends an event;
* `World.Ends`: how a script loses its thread of a group;
* `World.Step.under`: from one state to the next a script keeps its thread, or loses it in one of
  these ways;
* `World.Reaches.isGroupRunning_eq_false_iff`: when a group has no thread any more.
-/

namespace BlockScript

/-! ## 1. What sends an event -/

/-- What sends an event. -/
inductive Signal
  | trigger (e : Event)
  | triggerFor (id : TargetId) (e : Event)
  | switchBackdrop (v : Value)
  | greenFlag

namespace Signal

variable {H : Type} [Host H]

/-- Sends the event: the group of the threads that it starts, and the machine. -/
def send : Signal → Machine H → GroupId × Machine H
  | .trigger e, m => m.trigger e
  | .triggerFor id e, m => m.triggerFor id e
  | .switchBackdrop v, m => m.switchBackdrop v
  | .greenFlag, m => m.greenFlag

/-- The scripts that wait for the event, when it has been sent. -/
def scripts : Signal → Machine H → List (TargetId × Label)
  | .trigger e, m => m.scriptsFor e
  | .triggerFor id e, m => m.scriptsOf e id
  | .switchBackdrop _, m => m.scriptsFor (.ofBackdrop ((m.stage?.map Target.costumeName).getD ""))
  | .greenFlag, m => m.scriptsFor .flag

/-- What is done before the scripts start: no thread is new. -/
structure Prepares (m m₀ : Machine H) : Prop where
  lastGroup : m₀.lastGroup = m.lastGroup
  waiting : ∀ t : Thread, .waiting t ∈ m₀.queue → .waiting t ∈ m.queue

/-- **An event starts the scripts that wait for it**, as the next group. -/
theorem send_eq (σ : Signal) (m : Machine H) :
    (σ.send m).1 = m.lastGroup + 1 ∧
    ∃ m₀ : Machine H, Prepares m m₀ ∧
      (σ.send m).2 = m₀.newGroup.2.startAll (m.lastGroup + 1) (σ.scripts (σ.send m).2) := by
  have hevent {m₀ : Machine H} (e : Event) (hp : Prepares m m₀) :
      (m₀.trigger e).2 =
        m₀.newGroup.2.startAll (m.lastGroup + 1) ((m₀.trigger e).2.scriptsFor e) := by
    rw [← hp.lastGroup, Machine.scriptsFor_trigger, ← Machine.trigger_eq_startAll]
  have hsame : Prepares m m := ⟨rfl, fun _ => id⟩
  cases σ with
  | trigger e => exact ⟨rfl, m, hsame, hevent e hsame⟩
  | triggerFor id e =>
    refine ⟨rfl, m, hsame, ?_⟩
    have htargets : (m.triggerFor id e).2.targets = m.targets := by rw [Machine.triggerFor_eq]
    show (m.triggerFor id e).2 =
      m.newGroup.2.startAll (m.lastGroup + 1) ((m.triggerFor id e).2.scriptsOf e id)
    rw [Machine.scriptsOf_congr htargets, ← Machine.triggerFor_eq_startAll]
  | switchBackdrop v =>
    obtain ⟨m₀, heq, ⟨hqueue, -, hgroup⟩, -⟩ := m.switchBackdrop_eq_trigger v
    have hp : Prepares m m₀ := ⟨hgroup, fun t ht => hqueue ▸ ht⟩
    have hstage : (m.switchBackdrop v).2.stage? = m₀.stage? := by
      rw [heq, Machine.trigger_eq]
      rfl
    refine ⟨?_, m₀, hp, ?_⟩
    · show (m.switchBackdrop v).1 = _
      rw [heq, ← hgroup]
      rfl
    · show (m.switchBackdrop v).2 = m₀.newGroup.2.startAll (m.lastGroup + 1)
        ((m.switchBackdrop v).2.scriptsFor
          (.ofBackdrop (((m.switchBackdrop v).2.stage?.map Target.costumeName).getD "")))
      rw [hstage, heq]
      exact hevent _ hp
  | greenFlag =>
    have hp : Prepares m m.stopAll.resetTimer := by
      refine ⟨rfl, fun t ht => ?_⟩
      have hqueue : m.stopAll.resetTimer.queue = m.stopAll.queue := rfl
      rw [hqueue] at ht
      unfold Machine.stopAll at ht
      dsimp only at ht
      split at ht
      · obtain ⟨_, -, heq⟩ := List.mem_map.mp ht
        cases heq
      · cases ht
    exact ⟨rfl, _, hp, hevent .flag hp⟩

theorem lastGroup_send (σ : Signal) (m : Machine H) :
    (σ.send m).2.lastGroup = m.lastGroup + 1 := by
  obtain ⟨-, m₀, hp, heq⟩ := σ.send_eq m
  rw [heq, Machine.lastGroup_startAll, ← hp.lastGroup]
  rfl

end Signal

/-! ## 2. Threads of a group -/

namespace Machine

variable {H : Type} {m m' : Machine H} {g : GroupId} {script : TargetId × Label}

/-- The script has a thread of the group, which waits or is at work. -/
def Under (m : Machine H) (g : GroupId) (script : TargetId × Label) : Prop :=
  (∃ t : Thread, .waiting t ∈ m.queue ∧ t.group = g ∧ t.script = script) ∨
    ∃ r, m.running = some r ∧ m.isRunning r.seat = true ∧ r.group = g ∧
      (r.target, r.base) = script

theorem mem_threads {t : Thread} : t ∈ m.threads ↔ .waiting t ∈ m.queue := by
  unfold threads
  rw [List.mem_filterMap]
  constructor
  · rintro ⟨s, hs, heq⟩
    cases s with
    | waiting u =>
      cases heq
      exact hs
    | empty | running => cases heq
  · intro h
    exact ⟨_, h, rfl⟩

/-- **A group is running just if some script has a thread of it.** -/
theorem isGroupRunning_iff : m.isGroupRunning g = true ↔ ∃ script, m.Under g script := by
  have hwaits : m.threads.any (·.group == g) = true ↔
      ∃ t : Thread, .waiting t ∈ m.queue ∧ t.group = g := by
    simp only [List.any_eq_true, mem_threads, beq_iff_eq]
  unfold isGroupRunning Under
  rw [Bool.or_eq_true, hwaits]
  cases hr : m.running with
  | none =>
    constructor
    · rintro (hnone | ⟨t, ht, hgroup⟩)
      · cases hnone
      · exact ⟨_, .inl ⟨t, ht, hgroup, rfl⟩⟩
    · rintro ⟨script, ⟨t, ht, hgroup, -⟩ | ⟨r, hnone, -⟩⟩
      · exact .inr ⟨t, ht, hgroup⟩
      · cases hnone
  | some r =>
    simp only [Bool.and_eq_true, beq_iff_eq]
    constructor
    · rintro (⟨hgroup, hseat⟩ | ⟨t, ht, hgroup⟩)
      · exact ⟨_, .inr ⟨r, rfl, hseat, hgroup, rfl⟩⟩
      · exact ⟨_, .inl ⟨t, ht, hgroup, rfl⟩⟩
    · rintro ⟨script, ⟨t, ht, hgroup, -⟩ | ⟨r', heq, hseat, hgroup, -⟩⟩
      · exact .inr ⟨t, ht, hgroup⟩
      · cases heq
        exact .inl ⟨hgroup, hseat⟩

/-- A script has a thread just if it has a seat. -/
theorem exists_under_iff : (∃ g, m.Under g script) ↔ ∃ i, m.occupant? i = some script := by
  constructor
  · rintro ⟨g, ⟨t, ht, -, rfl⟩ | ⟨r, hr, hseat, -, rfl⟩⟩
    · obtain ⟨i, hi⟩ := List.getElem?_of_mem ht
      exact ⟨i, occupant?_waiting hi⟩
    · exact ⟨r.seat, occupant?_running hr (isRunning_iff.mp hseat)⟩
  · rintro ⟨i, hi⟩
    rcases occupant?_eq_some.mp hi with ⟨t, ht, rfl⟩ | ⟨hseat, r, hr, rfl, rfl⟩
    · exact ⟨t.group, .inl ⟨t, List.mem_of_getElem? ht, rfl, rfl⟩⟩
    · exact ⟨r.group, .inr ⟨r, hr, isRunning_iff.mpr hseat, rfl, rfl⟩⟩

/-- A script that starts has a thread of the group. -/
theorem waiting_startThread (m : Machine H) (target : TargetId) (base : Label) (g : GroupId) :
    ∃ (i : Nat) (t : Thread), (m.startThread target base g).queue[i]? = some (.waiting t) ∧
      t.group = g ∧ t.script = (target, base) := by
  unfold startThread
  dsimp only
  split
  · rename_i i hi
    have hlt : i < m.queue.length := List.mem_range.mp (List.mem_of_find?_eq_some hi)
    exact ⟨i, _, List.getElem?_set_self hlt, rfl, rfl⟩
  · exact ⟨m.queue.length, _, List.getElem?_concat_length, rfl, rfl⟩

theorem waiting_startAll {scripts : List (TargetId × Label)} (h : script ∈ scripts) (m : Machine H)
    (g : GroupId) : ∃ t : Thread,
      .waiting t ∈ (m.startAll g scripts).queue ∧ t.group = g ∧ t.script = script := by
  induction scripts generalizing m with
  | nil => cases h
  | cons other rest ih =>
    rcases List.mem_cons.mp h with rfl | h
    · obtain ⟨i, t, ht, hgroup, hscript⟩ := m.waiting_startThread script.1 script.2 g
      -- if another of the scripts takes the seat it is the same once more
      have hfates : Befalls 0 False (·.group = g) (m.startThread script.1 script.2 g)
          (m.startAll g (script :: rest)) := befalls_startAll _ g rest
      cases hfates.fate i with
      | kept hkept => exact ⟨t, List.mem_of_getElem? (hkept.trans ht), hgroup, hscript⟩
      | stopped _ hs => exact hs.elim
      | @started u hseat _ hnew hover _ =>
        refine ⟨u, List.mem_of_getElem? hseat, hnew, ?_⟩
        rcases hover with hover | hge
        · rw [occupant?_waiting ht] at hover
          exact (Option.some.inj hover).symm.trans hscript
        · exact absurd (lt_of_getElem? ht) (Nat.not_lt.mpr hge)
    · exact ih h _

/-- A thread that waits after scripts have started waited before, or is of one of the scripts. -/
theorem of_waiting_startAll {scripts : List (TargetId × Label)} {t : Thread}
    (h : .waiting t ∈ (m.startAll g scripts).queue) :
    .waiting t ∈ m.queue ∨ t.Fresh ∧ t.group = g ∧ t.script ∈ scripts := by
  induction scripts generalizing m with
  | nil => exact .inl h
  | cons other rest ih =>
    rcases ih h with hold | ⟨hfresh, hgroup, hmem⟩
    · unfold startThread at hold
      dsimp only at hold
      split at hold
      · rcases List.mem_or_eq_of_mem_set hold with hold | heq
        · exact .inl hold
        · cases heq
          exact .inr ⟨rfl, rfl, List.mem_cons_self⟩
      · rcases List.mem_append.mp hold with hold | heq
        · exact .inl hold
        · cases List.mem_singleton.mp heq
          exact .inr ⟨rfl, rfl, List.mem_cons_self⟩
    · exact .inr ⟨hfresh, hgroup, List.mem_cons_of_mem _ hmem⟩

variable [Host H]

/-- Whoever is of the group of an event was started by it. -/
theorem fresh_send (σ : Signal) (htidy : m.Tidy) {t : Thread}
    (h : .waiting t ∈ (σ.send m).2.queue) (hg : m.lastGroup < t.group) :
    t.Fresh ∧ t.group = (σ.send m).1 ∧ t.script ∈ σ.scripts (σ.send m).2 := by
  obtain ⟨hgroup, m₀, hp, heq⟩ := σ.send_eq m
  rw [hgroup]
  rw [heq] at h
  rcases of_waiting_startAll h with hold | hnew
  · exact absurd hg (Nat.not_lt.mpr (htidy.issued t (hp.waiting t hold)))
  · exact hnew

/-- Each script that waits for an event has a thread of its group. -/
theorem waiting_send (σ : Signal) (h : script ∈ σ.scripts (σ.send m).2) :
    ∃ t : Thread, .waiting t ∈ (σ.send m).2.queue ∧ t.group = (σ.send m).1 ∧
      t.script = script := by
  obtain ⟨hgroup, m₀, -, heq⟩ := σ.send_eq m
  obtain ⟨t, ht, hg, hscript⟩ := waiting_startAll h m₀.newGroup.2 (m.lastGroup + 1)
  rw [← heq] at ht
  exact ⟨t, ht, hg.trans hgroup.symm, hscript⟩

end Machine

/-! ## 3. Who sends events -/

/-- Whether the statement sends an event, to all targets or to a clone. -/
def Stmt.issues : Stmt → Bool
  | .createClone _ => true
  | s => s.sends

namespace Machine

variable {H : Type}

theorem lastGroup_deleteClone (m : Machine H) (id : TargetId) :
    (m.deleteClone id).2.lastGroup = m.lastGroup := by
  rcases m.deleteClone_cases id with heq | ⟨-, -, -, heq⟩ <;> rw [heq]
  rfl

variable [Host H]

/-- On the way from a machine to another an event is sent, by a machine `m₀` that has the seats of
    the first. The second has those that the event leaves. -/
structure Calls (m : Machine H) (σ : Signal) (m₀ m' : Machine H) : Prop where
  queue : m₀.queue = m.queue
  running : m₀.running = m.running
  lastGroup : m₀.lastGroup = m.lastGroup
  seats : m'.queue = (σ.send m₀).2.queue
  issued : m'.lastGroup = (σ.send m₀).2.lastGroup

/-- A clone that is made hears of it. -/
theorem calls_createClone (m : Machine H) (of : TargetId) :
    (m.createClone of).2.lastGroup = m.lastGroup ∨ ∃ σ m₀, m.Calls σ m₀ (m.createClone of).2 := by
  unfold createClone
  split
  · exact .inl rfl
  dsimp only
  split
  · exact .inl rfl
  · rename_i clone _
    let m₀ : Machine H :=
      { m with
        targets := if m.free.isEmpty then m.targets ++ [some clone]
          else m.targets.set (m.free.headD m.targets.length) (some clone)
        free := m.free.tail
        order := m.order ++ [m.free.headD m.targets.length]
        clones := m.clones + 1 }
    exact .inr ⟨.triggerFor (m.free.headD m.targets.length) .cloned, m₀, rfl, rfl, rfl, rfl, rfl⟩

/-- Other statements give out no group. -/
theorem lastGroup_of_alters {own : TargetId} {seat : Nat} {s : Stmt} {m m' : Machine H}
    (hs : s.issues = false) (h : Alters own seat s m m') : m'.lastGroup = m.lastGroup := by
  induction h with
  | refl => rfl
  | tail _ hc ih =>
    refine Eq.trans ?_ ih
    cases hc with
    | aside h => exact h.lastGroup
    | trigger hsends =>
      cases s with
      | createClone => cases hs
      | _ => cases hsends.symm.trans hs
    | createClone => cases hs
    | deleteClone => exact lastGroup_deleteClone _ _
    | modify | stopOthers | stopAll => rfl

end Machine

namespace Act

variable {H : Type}

/-- The sprite that is cloned by name, if there is one. -/
def sourceOf? (of : String) (t : Turn H) : Option TargetId :=
  if of = "_myself_" then some t.thread.target
  else ((t.machine.find? of).filter fun t => !t.isStage).map (·.id)

theorem execClone_apply (of : String) (t : Turn H) :
    execClone of t = .ok () { t with
      machine := (sourceOf? of t).elim t.machine fun id => (t.machine.createClone id).2 } := by
  simp only [execClone, bind_apply, machine_apply, thread_apply, sourceOf?]
  generalize (if of = "_myself_" then some t.thread.target
    else ((t.machine.find? of).filter fun t => !t.isStage).map (·.id)) = source
  cases source <;> rfl

variable [Host H] {s : Stmt} {t t' : Turn H}

/-- A statement that fails has given out no group. -/
theorem lastGroup_of_error {e : Fault} (h : exec s t = .error e t') :
    t'.machine.lastGroup = t.machine.lastGroup := by
  cases hs : s.issues with
  | false => exact Machine.lastGroup_of_alters hs ((exec_alters s).of_error h).machine
  | true =>
    cases s with
    | broadcast message wait =>
      simp only [exec, bind_apply] at h
      split at h
      · rw [execEvent_apply] at h
        cases h
      · rename_i herror
        cases h
        exact ((made_evalText message.frees_true).aside.of_error herror).lastGroup
    | switchBackdrop backdrop wait =>
      simp only [exec, bind_apply] at h
      split at h
      · simp only [touchScreen, modifyMachine_apply, execEvent_apply] at h
        cases h
      · rename_i herror
        cases h
        exact ((made_eval backdrop.frees_true).aside.of_error herror).lastGroup
    | createClone of =>
      simp only [exec, bind_apply] at h
      split at h
      · rw [execClone_apply] at h
        cases h
      · rename_i herror
        cases h
        exact ((made_evalText of.frees_true).aside.of_error herror).lastGroup
    | _ => cases hs

/-- **A statement gives out a group only by sending an event**, and then it leaves its thread to go
    on, if that has its seat still. -/
theorem exec_calls {c : Control} (h : exec s t = .ok c t') :
    t'.machine.lastGroup = t.machine.lastGroup ∨
      ∃ σ m₀, t.machine.Calls σ m₀ t'.machine ∧
        (c = .onward [] ∨ c = .leave .detached ∧ t'.machine.isRunning t'.seat = false) := by
  cases hs : s.issues with
  | false => exact .inl (Machine.lastGroup_of_alters hs ((exec_alters s).of_ok h).machine)
  | true =>
    by_cases hsends : s.sends = true
    · obtain ⟨m₀, e, -, hpoised, hmachine, hseat, hc, -⟩ := exec_sends hsends h
      refine .inr ⟨.trigger e, m₀, ⟨hpoised.queue, hpoised.running, hpoised.lastGroup, ?_, ?_⟩, ?_⟩
      · rw [hmachine]
        rfl
      · rw [hmachine]
        rfl
      · rw [hc, hseat]
        cases t'.machine.isRunning t.seat with
        | true => exact .inl rfl
        | false => exact .inr ⟨rfl, rfl⟩
    · cases s with
      | createClone of =>
        obtain ⟨name, t₁, h₁, h⟩ := bind_eq_ok.mp h
        have haside := (made_evalText of.frees_true).aside.of_ok h₁
        obtain ⟨_, t₂, h₂, h⟩ := bind_eq_ok.mp h
        cases h
        rw [execClone_apply] at h₂
        cases h₂
        cases sourceOf? name t₁ with
        | none => exact .inl haside.lastGroup
        | some id =>
          refine (t₁.machine.calls_createClone id).imp (·.trans haside.lastGroup) ?_
          rintro ⟨σ, m₀, hcalls⟩
          exact ⟨σ, m₀, ⟨hcalls.queue.trans haside.queue, hcalls.running.trans haside.running,
            hcalls.lastGroup.trans haside.lastGroup, hcalls.seats, hcalls.issued⟩, .inl rfl⟩
      | _ => exact absurd hs hsends

end Act

/-! ## 4. Along a run -/

namespace World

variable {H : Type} {R : Rules} {D : Discipline R} {w w' : World H} {g g' : GroupId}
  {script : TargetId × Label}

/-- The threads of a group are seen. -/
theorem under_iff (hw : w.Sound D) : w.machine.Under g script ↔
    ∃ p x, w.Sees p x ∧ x.thread.group = g ∧ x.thread.script = script := by
  constructor
  · rintro (⟨t, ht, hgroup, hscript⟩ | ⟨r, hr, -, hgroup, hscript⟩)
    · obtain ⟨target, htarget, -⟩ := hw.machine.1.thread t ht
      exact ⟨_, .seat t, .seat ⟨ht, target, htarget, rfl⟩, hgroup, hscript⟩
    · cases w with
      | rest | pass => cases (Machine.Settled.running hw).symm.trans hr
      | turn t l code length seats =>
        obtain ⟨-, ⟨hseated, -⟩, -⟩ := hw
        cases hseated.running.symm.trans hr
        exact ⟨_, _, .work t l code length seats, hgroup, hscript⟩
  · rintro ⟨p, x, hx, hgroup, hscript⟩
    cases hx with
    | @seat _ _ t ht => exact .inl ⟨t, ht.1, hgroup, hscript⟩
    | work t l code length seats =>
      obtain ⟨-, ⟨hseated, -⟩, -⟩ := hw
      exact .inr ⟨_, hseated.running, Machine.isRunning_iff.mpr hseated.seat, hgroup, hscript⟩

theorem under_unique (hw : w.Sound D) (h : w.machine.Under g script)
    (h' : w.machine.Under g' script) : g' = g := by
  obtain ⟨p, x, hx, hgroup, hscript⟩ := (under_iff hw).mp h
  obtain ⟨q, y, hy, hgroup', hscript'⟩ := (under_iff hw).mp h'
  obtain ⟨-, rfl⟩ := hx.unique hw hy (hscript'.trans hscript.symm)
  exact hgroup'.symm.trans hgroup

/-- A script has no thread of a group that is not given out yet. -/
theorem not_under (hw : w.Sound D) (hg : w.machine.lastGroup < g) : ¬ w.machine.Under g script := by
  intro h
  obtain ⟨p, x, hx, hgroup, -⟩ := (under_iff hw).mp h
  have hle := hx.issued hw
  rw [hgroup] at hle
  exact absurd hg (Nat.not_lt.mpr hle)

variable [Host H]

/-- In a step the group is given out. -/
def Issues (w w' : World H) (g : GroupId) : Prop :=
  w.machine.lastGroup < g ∧ g ≤ w'.machine.lastGroup

/-- **A step that gives out a group sends an event.** -/
theorem Step.calls (h : Step R w w') :
    w'.machine.lastGroup = w.machine.lastGroup ∨ ∃ σ m₀, w.machine.Calls σ m₀ w'.machine := by
  have hexec {s : Stmt} {t t' : Turn H} {c : Control} (h : Act.exec s t = .ok c t') :
      t'.machine.lastGroup = t.machine.lastGroup ∨ ∃ σ m₀, t.machine.Calls σ m₀ t'.machine :=
    (Act.exec_calls h).imp_right fun ⟨σ, m₀, hcalls, _⟩ => ⟨σ, m₀, hcalls⟩
  cases h with
  | @request r f hr m =>
    have hsend (σ : Signal) : ∃ σ' m₀, m.Calls σ' m₀ (σ.send m).2 :=
      ⟨σ, m, rfl, rfl, rfl, rfl, rfl⟩
    cases r <;> cases hr
    case greenFlag.refl => exact .inr (hsend .greenFlag)
    case trigger.refl e => exact .inr (hsend (.trigger e))
    case triggerFor.refl id e => exact .inr (hsend (.triggerFor id e))
    case switchBackdrop.refl v => exact .inr (hsend (.switchBackdrop v))
    case createClone.refl of => exact m.calls_createClone of
    case deleteClone.refl id => exact .inl (m.lastGroup_deleteClone id)
    case stopAll.refl | stopTarget.refl | halt.refl | resetTimer.refl | attend.refl => exact .inl rfl
  | setClock | start | lapse | skip | enter | refuse | finish | again | close => exact .inl rfl
  | onward h => exact hexec h
  | jump h => exact hexec h
  | @leave s t t' e seat h he l rest length seats =>
    refine (Act.exec_calls h).imp id ?_
    rintro ⟨σ, m₀, hcalls, heq | ⟨-, hlost⟩⟩
    · cases heq
    · -- the seat is lost, so nothing is put into it
      refine ⟨σ, m₀, hcalls.queue, hcalls.running, hcalls.lastGroup, ?_, hcalls.issued⟩
      show (t'.machine.settle t'.seat seat).queue = (σ.send m₀).2.queue
      rw [Machine.settle_of_lost hlost]
      exact hcalls.seats
  | @fail t t' code hfails l length seats =>
    refine .inl ?_
    show t'.machine.lastGroup = t.machine.lastGroup
    cases hfails with
    | fault h => exact Act.lastGroup_of_error h
    | stray h =>
      rcases Act.exec_calls h with heq | ⟨-, -, -, heq | ⟨heq, -⟩⟩
      · exact heq
      · cases heq
      · cases heq
    | exhausted => rfl

/-- A script whose thread is of a group of before had it before. -/
theorem Step.under_back (h : Step R w w') (hw : w.Sound D) (hg : g ≤ w.machine.lastGroup)
    (h' : w'.machine.Under g script) : w.machine.Under g script := by
  obtain ⟨p, y, hy, hgroup, hscript⟩ := (under_iff (h.sound hw)).mp h'
  obtain ⟨x, hx, -, hsame⟩ := h.sight hw hy (hgroup ▸ hg)
  refine (under_iff hw).mpr ⟨p, x, hx, ?_, ?_⟩
  · exact hsame.group.symm.trans hgroup
  · exact hsame.script.symm.trans hscript

theorem Reaches.lastGroup_le (h : Reaches R w w') (hw : w.Sound D) :
    w.machine.lastGroup ≤ w'.machine.lastGroup := by
  induction h with
  | refl => exact Nat.le_refl _
  | tail hreaches hstep ih => exact Nat.le_trans ih (hstep.lastGroup_le (Reaches.sound hreaches hw))

/-- **A group only loses threads.** -/
theorem Reaches.under_back (h : Reaches R w w') (hw : w.Sound D) (hg : g ≤ w.machine.lastGroup)
    (h' : w'.machine.Under g script) : w.machine.Under g script := by
  induction h with
  | refl => exact h'
  | tail hreaches hstep ih =>
    exact ih (hstep.under_back (Reaches.sound hreaches hw)
      (Nat.le_trans hg (Reaches.lastGroup_le hreaches hw)) h')

end World

/-! ## 5. How a script loses its thread -/

/-- Whether the request stops threads. -/
def Request.stops {H : Type} : Request H → Bool
  | .greenFlag | .deleteClone _ | .stopAll | .stopTarget .. | .halt => true
  | _ => false

namespace Machine

variable {H : Type} {m m' : Machine H} {i : Nat} {script : TargetId × Label}

/-- Where no thread is stopped, a script keeps its seat. -/
theorem occupant?_of_befalls {own : TargetId} {new : Thread → Prop}
    (h : Befalls own False new m m') (hi : m.occupant? i = some script) :
    m'.occupant? i = some script := by
  cases h.fate i with
  | kept hkept => exact (occupant?_congr h.running hkept).trans hi
  | stopped _ hs => exact hs.elim
  | started hseat _ _ hscript =>
    rcases hscript with hscript | hge
    · exact (occupant?_waiting hseat).trans (hscript.symm.trans hi)
    · exact absurd (lt_of_occupant? hi) (Nat.not_lt.mpr hge)

/-- The end of a turn leaves other scripts their seats. -/
theorem occupant?_settle (hi : m.occupant? i = some script) (hne : m.queue[i]? ≠ some .running)
    (seat : Nat) (s : Seat) : (m.settle seat s).occupant? i = some script := by
  rcases occupant?_eq_some.mp hi with ⟨t, ht, rfl⟩ | ⟨hrunning, -⟩
  · refine occupant?_waiting ?_
    by_cases hseat : i = seat
    · subst hseat
      rw [settle_of_lost (Bool.eq_false_iff.mpr fun hrun => hne (isRunning_iff.mp hrun))]
      exact ht
    · exact (getElem?_settle_ne s hseat).trans ht
  · exact absurd hrunning hne

theorem occupant?_endPass {I : Invariant} (h : m.Settled I) (hi : m.occupant? i = some script) :
    ∃ j, m.endPass.occupant? j = some script := by
  rcases occupant?_eq_some.mp hi with ⟨t, ht, rfl⟩ | ⟨hrunning, -⟩
  · have hmem : .waiting { t with ready := true } ∈ m.endPass.queue :=
      List.mem_filterMap.mpr ⟨_, List.mem_of_getElem? ht, rfl⟩
    obtain ⟨j, hj⟩ := List.getElem?_of_mem hmem
    exact ⟨j, (occupant?_waiting hj).trans rfl⟩
  · exact absurd hrunning h.not_running

variable [Host H]

/-- A request that stops no threads leaves each script its seat. -/
theorem occupant?_request {r : Request H} {f : Machine H → Machine H} (hr : r.change? = some f)
    (hs : r.stops = false) (hi : m.occupant? i = some script) :
    (f m).occupant? i = some script := by
  have hkeeps {m' : Machine H} (h : Fates 0 False m m') : m'.occupant? i = some script :=
    occupant?_of_befalls h.seats hi
  cases r <;> cases hr
  case trigger.refl e => exact hkeeps (fates_trigger m e)
  case triggerFor.refl id e =>
    refine hkeeps ?_
    show Fates 0 False m (m.triggerFor id e).2
    rw [triggerFor_eq_startAll]
    exact fates_startAll m _
  case switchBackdrop.refl v =>
    obtain ⟨m₀, heq, ⟨hqueue, hrunning, hgroup⟩, -⟩ := m.switchBackdrop_eq_trigger v
    refine hkeeps ?_
    show Fates 0 False m (m.switchBackdrop v).2
    rw [heq]
    exact (Fates.of_eq hgroup hrunning hqueue).trans (fates_trigger m₀ _)
  case createClone.refl of => exact hkeeps (fates_createClone m of)
  case resetTimer.refl | attend.refl => exact hi
  all_goals cases hs

end Machine

namespace Act

variable {H : Type} [Host H] {s : Stmt} {t t' : Turn H}

/-- A statement that stops no threads leaves each script its seat. -/
theorem Alters.occupant? (h : Alters s t t') (hs : s.stops = false) (hseated : Seated t) {i : Nat}
    {script : TargetId × Label} (hi : t.machine.occupant? i = some script) :
    t'.machine.occupant? i = some script := by
  have hrunning : t.machine.running.isSome = true := by
    rw [hseated.running]
    rfl
  have hfates := Machine.fates_of_alters h.machine hrunning
  refine Machine.occupant?_of_befalls (hfates.seats.mono (fun hstops => ?_) fun _ => id) hi
  rw [hs] at hstops
  cases hstops

/-- Only one statement ends the thread that executes it. -/
theorem return_of_stop (h : exec s t = .ok (.leave .stop) t') : s = .return := by
  by_cases hunseat : s.mayUnseat = true
  case neg => exact (return_of_exec (Bool.eq_false_iff.mpr hunseat) h rfl).1
  have hsent (hs : s.sends = true) : s = .return := by
    obtain ⟨-, -, -, -, -, -, hc, -⟩ := exec_sends hs h
    split at hc <;> cases hc
  cases s with
  | broadcast | switchBackdrop => exact hsent rfl
  | stopAll =>
    simp only [exec, bind_apply, modifyMachine_apply, ifSeated_apply] at h
    injection h with hc
    split at hc <;> cases hc
  | deleteClone =>
    rw [exec_deleteClone_apply] at h
    injection h with hc
    split at hc <;> cases hc
  | _ => cases hunseat

end Act

namespace World

variable {H : Type} [Host H]

/-- The thread that acts next is of the script. -/
inductive Active : World H → TargetId × Label → Prop
  | work (t : Turn H) (l : Label) (code : List Stmt) (length : Nat) (seats : List Nat) :
      Active (.turn t l code length seats) t.thread.script
  | next {m : Machine H} {i : Nat} {t : Thread} (h : m.ready? i = some t) (length : Nat)
      (seats : List Nat) : Active (.pass m length (i :: seats)) t.script

/-- In the step threads are stopped, by a request or by a statement. -/
inductive Stops : World H → World H → Prop
  | request {r : Request H} {f : Machine H → Machine H} (hr : r.change? = some f)
      (hs : r.stops = true) (m : Machine H) : Stops (.rest m) (.rest (f m))
  | statement {s : Stmt} (hs : s.stops = true) (t : Turn H) (l : Label) (rest : List Stmt)
      (length : Nat) (seats : List Nat) (w' : World H) :
      Stops (.turn t l (s :: rest) length seats) w'

/-- Why a script has no thread after a step. -/
inductive Loses (w w' : World H) (script : TargetId × Label) : Prop
  /-- The thread comes to its end, or to a statement that ends it. -/
  | finished {t : Turn H} {l : Label} {code : List Stmt} {length : Nat} {seats : List Nat}
      (hw : w = .turn t l code length seats) (hscript : t.thread.script = script)
      (hcode : code = [] ∨ ∃ rest, code = .return :: rest)
  /-- A fault ends the thread, and the frame. -/
  | failed (h : w.Active script) {m : Machine H} (hw' : w' = .rest m)
  | stopped (h : w.Stops w')

variable {R : Rules} {D : Discipline R} {w w' : World H} {script : TargetId × Label}

/-- The end of a turn in which no thread is stopped. -/
theorem occupied_of_settle {t t' : Turn H} {s : Stmt} (ha : Act.Alters s t t')
    (hs : s.stops = false) (hseated : Act.Seated t) {i : Nat}
    (hi : t.machine.occupant? i = some script) {seat : Seat}
    (hown : t'.machine.queue[t'.seat]? = some .running → t.thread.script = script →
      (∃ u : Thread, seat = .waiting u ∧ u.script = script) ∨ w.Loses w' script) :
    (∃ j, (t'.machine.settle t'.seat seat).occupant? j = some script) ∨ w.Loses w' script := by
  have hi' := ha.occupant? hs hseated hi
  by_cases hlent : t'.machine.queue[i]? = some .running
  case neg => exact .inl ⟨i, Machine.occupant?_settle hi' hlent _ _⟩
  -- only the thread at work has left its seat
  have hrunning : t'.machine.running =
      some ⟨t.seat, t.thread.target, t.thread.base, t.thread.group⟩ := by
    have hworking : t.machine.running.isSome = true := by
      rw [hseated.running]
      rfl
    rw [(Machine.fates_of_alters ha.machine hworking).seats.running]
    exact hseated.running
  rcases Machine.occupant?_eq_some.mp hi' with ⟨u, hu, -⟩ | ⟨-, r, hr, hseat, hscript⟩
  · cases hlent.symm.trans hu
  · cases hrunning.symm.trans hr
    have hplace : i = t'.seat := hseat.symm.trans ha.seat.symm
    subst hplace
    refine (hown hlent hscript).imp_left ?_
    rintro ⟨u, rfl, rfl⟩
    exact ⟨_, Machine.occupant?_waiting (Machine.getElem?_settle_self _ hlent)⟩

/-- **A script keeps its seat, or loses it for one of these reasons.** -/
theorem Step.occupied (h : Step R w w') (hw : w.Sound D) {i : Nat}
    (hi : w.machine.occupant? i = some script) :
    (∃ j, w'.machine.occupant? j = some script) ∨ w.Loses w' script := by
  cases h with
  | @request r f hr m =>
    cases hs : r.stops with
    | true => exact .inr (.stopped (.request hr hs m))
    | false => exact .inl ⟨i, Machine.occupant?_request hr hs hi⟩
  | setClock | start | lapse | skip => exact .inl ⟨i, hi⟩
  | @enter m k t target code hready htarget hc length seats =>
    refine .inl ⟨i, ?_⟩
    rcases Machine.occupant?_eq_some.mp hi with ⟨u, hu, rfl⟩ | ⟨hrunning, -⟩
    · by_cases hik : i = k
      · subst hik
        cases (Machine.getElem?_of_ready? hready).symm.trans hu
        have hlent : (m.lend i t).queue[i]? = some .running := Machine.getElem?_lend hready
        exact Machine.occupant?_running (r := ⟨i, t.target, t.base, t.group⟩) rfl hlent
      · exact Machine.occupant?_waiting ((Machine.getElem?_lend_ne t hik).trans hu)
    · exact absurd hrunning (Machine.Settled.not_running hw)
  | @refuse m k t hready hno length seats =>
    rcases Machine.occupant?_eq_some.mp hi with ⟨u, hu, rfl⟩ | ⟨hrunning, -⟩
    · by_cases hik : i = k
      · subst hik
        cases (Machine.getElem?_of_ready? hready).symm.trans hu
        exact .inr (.failed (.next hready length seats) rfl)
      · refine .inl ⟨i, Machine.occupant?_waiting ?_⟩
        exact (Machine.getElem?_settle_ne _ hik).trans ((Machine.getElem?_lend_ne t hik).trans hu)
    · exact absurd hrunning (Machine.Settled.not_running hw)
  | @onward s t _ _ hexec l rest length seats | @jump s t _ _ _ hexec _ l rest length seats =>
    cases hs : s.stops with
    | true => exact .inr (.stopped (.statement hs t l rest length seats _))
    | false =>
      exact .inl ⟨i, ((Act.exec_alters s).of_ok hexec).occupant? hs hw.2.1.1 hi⟩
  | @leave s t t' e seat hexec he l rest length seats =>
    cases hs : s.stops with
    | true => exact .inr (.stopped (.statement hs t l rest length seats _))
    | false =>
      have ha := (Act.exec_alters s).of_ok hexec
      refine occupied_of_settle ha hs hw.2.1.1 hi fun hlent hscript => ?_
      cases e with
      | jump => cases he
      | yield k =>
        cases he
        exact .inl ⟨_, rfl, ha.thread.script.trans hscript⟩
      | stop =>
        cases Act.return_of_stop hexec
        exact .inr (.finished rfl hscript (.inr ⟨rest, rfl⟩))
      | detached =>
        have hlost := (Act.exec_detached_iff hw.1.1 hw.2.1.1 hexec).mp rfl
        rw [← ha.seat, Machine.isRunning_iff.mpr hlent] at hlost
        cases hlost
  | finish t l length seats =>
    exact occupied_of_settle (s := .return) (.refl t) rfl hw.2.1.1 hi fun _ hscript =>
      .inr (.finished rfl hscript (.inl rfl))
  | @fail t t' code hfails l length seats =>
    have hover {s : Stmt} (ha : Act.Alters s t t') (hs : s.stops = false) :
        (∃ j, (t'.machine.settle t'.seat .empty).occupant? j = some script) ∨
          Loses (.turn t l code length seats) (.rest (t'.machine.settle t'.seat .empty)) script :=
      occupied_of_settle ha hs hw.2.1.1 hi fun _ hscript =>
        .inr (.failed (hscript ▸ .work t l code length seats) rfl)
    cases hfails with
    | @fault s _ _ rest e hexec =>
      cases hs : s.stops with
      | true => exact .inr (.stopped (.statement hs t l rest length seats _))
      | false => exact hover ((Act.exec_alters s).of_error hexec) hs
    | @stray s _ _ rest k hexec =>
      cases hs : s.stops with
      | true => exact .inr (.stopped (.statement hs t l rest length seats _))
      | false => exact hover ((Act.exec_alters s).of_ok hexec) hs
    | exhausted => exact hover (s := .return) (.refl t) rfl
  | again => exact .inl (Machine.occupant?_endPass hw hi)
  | close => exact .inl (Machine.occupant?_endPass hw hi)

/-- How a script loses its thread of a group in a step: it has none any more, or one that was
    started since. -/
inductive Ends (w w' : World H) (g : GroupId) (script : TargetId × Label) : Prop
  | lost (h : w.Loses w' script) (hgone : ∀ g', ¬ w'.machine.Under g' script)
  | restarted {g' : GroupId} (hg : g < g') (h : w'.machine.Under g' script)

/-- In a run a script loses its thread of a group. -/
def EndsIn (R : Rules) (w v : World H) (g : GroupId) (script : TargetId × Label) : Prop :=
  ∃ x y, Reaches R w x ∧ Step R x y ∧ Reaches R y v ∧ x.Ends y g script

variable {v : World H} {g : GroupId}

theorem Ends.not_under (h : w.Ends w' g script) (hw' : w'.Sound D) :
    ¬ w'.machine.Under g script := by
  intro hunder
  cases h with
  | lost _ hgone => exact hgone g hunder
  | restarted hg h =>
    rw [under_unique hw' hunder h] at hg
    exact Nat.lt_irrefl _ hg

/-- **From one state to the next a script keeps its thread, or loses it.** -/
theorem Step.under (h : Step R w w') (hw : w.Sound D) (hunder : w.machine.Under g script) :
    w'.machine.Under g script ∨ w.Ends w' g script := by
  by_cases hsome : ∃ g', w'.machine.Under g' script
  · obtain ⟨g', h'⟩ := hsome
    rcases Nat.lt_or_ge w.machine.lastGroup g' with hnew | hold
    · refine .inr (.restarted (Nat.lt_of_le_of_lt ?_ hnew) h')
      exact Nat.not_lt.mp fun hg => not_under hw hg hunder
    · rw [under_unique hw hunder (h.under_back hw hold h')] at h'
      exact .inl h'
  · obtain ⟨i, hi⟩ := Machine.exists_under_iff.mp ⟨g, hunder⟩
    rcases h.occupied hw hi with hseat | hloses
    · exact absurd (Machine.exists_under_iff.mpr hseat) hsome
    · exact .inr (.lost hloses fun g' h' => hsome ⟨g', h'⟩)

/-- So it is along a run. -/
theorem Reaches.under (h : Reaches R w v) (hw : w.Sound D) (hunder : w.machine.Under g script) :
    v.machine.Under g script ∨ EndsIn R w v g script := by
  induction h with
  | refl => exact .inl hunder
  | tail hreaches hstep ih =>
    rcases ih with hstill | ⟨x, y, hx, hxy, hy, hends⟩
    · refine (hstep.under (Reaches.sound hreaches hw) hstill).imp_right fun hends => ?_
      exact ⟨_, _, hreaches, hstep, .refl, hends⟩
    · exact .inr ⟨x, y, hx, hxy, hy.tail hstep, hends⟩

/-- **A group has no thread any more just if each of its scripts has lost its thread.** -/
theorem Reaches.isGroupRunning_eq_false_iff (h : Reaches R w v) (hw : w.Sound D)
    (hg : g ≤ w.machine.lastGroup) :
    v.machine.isGroupRunning g = false ↔
      ∀ script, w.machine.Under g script → EndsIn R w v g script := by
  rw [Bool.eq_false_iff, ne_eq, Machine.isGroupRunning_iff]
  constructor
  · intro hnone script hunder
    exact (Reaches.under h hw hunder).resolve_left fun hstill => hnone ⟨script, hstill⟩
  · rintro hends ⟨script, hstill⟩
    obtain ⟨x, y, hx, hxy, hy, hlost⟩ := hends script (Reaches.under_back h hw hg hstill)
    have hsound := hxy.sound (Reaches.sound hx hw)
    have hle := Nat.le_trans (Nat.le_trans hg (Reaches.lastGroup_le hx hw))
      (hxy.lastGroup_le (Reaches.sound hx hw))
    exact hlost.not_under hsound (Reaches.under_back hy hsound hle hstill)

/-! ## 6. From the step on in which a group is given out -/

/-- A thread at work is not of a group that is given out. -/
theorem Step.group_le (h : Step R w w') (hw : w.Sound D) {p : Program} {t : Thread} {l : Label}
    {code : List Stmt} (hx : w'.Sees p (.work t l code)) : t.group ≤ w.machine.lastGroup := by
  have hexec {s : Stmt} {t t' : Turn H} {c : Control} (h : Act.exec s t = .ok c t')
      (hgroup : t.thread.group ≤ t.machine.lastGroup) : t'.thread.group ≤ t.machine.lastGroup := by
    rw [((Act.exec_alters s).of_ok h).thread.group]
    exact hgroup
  cases hx with
  | work =>
    cases h with
    | enter hready =>
      exact hw.machine.2.issued _ (List.mem_of_getElem? (Machine.getElem?_of_ready? hready))
    | onward h => exact hexec h hw.2.1.2
    | jump h => exact hexec h hw.2.1.2

section Calls

variable {σ : Signal} {m₀ : Machine H} (hw : w.Sound D) (hcalls : w.machine.Calls σ m₀ w'.machine)
include hw hcalls

theorem fresh_of_calls {t : Thread} (ht : .waiting t ∈ w'.machine.queue)
    (hg : w.machine.lastGroup < t.group) :
    t.Fresh ∧ t.group = (σ.send m₀).1 ∧ t.script ∈ σ.scripts (σ.send m₀).2 := by
  have htidy : m₀.Tidy :=
    hw.machine.2.evolves (.of_eq hcalls.lastGroup hcalls.running hcalls.queue)
  rw [hcalls.seats] at ht
  rw [← hcalls.lastGroup] at hg
  exact Machine.fresh_send σ htidy ht hg

/-- **The threads of a group that is given out are of the scripts that wait for the event.** -/
theorem under_of_calls (h : Step R w w') :
    w'.machine.Under (σ.send m₀).1 script ↔ script ∈ σ.scripts (σ.send m₀).2 := by
  have hnew : w.machine.lastGroup < (σ.send m₀).1 := by
    rw [(σ.send_eq m₀).1, hcalls.lastGroup]
    exact Nat.lt_succ_self _
  constructor
  · intro hunder
    obtain ⟨p, x, hx, hgroup, rfl⟩ := (under_iff (h.sound hw)).mp hunder
    cases hx with
    | seat ht => exact (fresh_of_calls hw hcalls ht.1 (hgroup ▸ hnew)).2.2
    | work =>
      refine absurd (h.group_le hw (.work ..)) (Nat.not_le.mpr ?_)
      exact hgroup ▸ hnew
  · intro hmem
    obtain ⟨t, ht, hgroup, hscript⟩ := Machine.waiting_send σ hmem
    exact .inl ⟨t, hcalls.seats ▸ ht, hgroup, hscript⟩

end Calls

/-- Whoever is there and is of an event of before has been there all the time. -/
theorem Reaches.followed (h : Reaches R w v) (hw : w.Sound D) (b : Sighting H) (hb : b.world = v)
    (hg : b.spot.thread.group ≤ w.machine.lastGroup) :
    ∃ a : Sighting H, a.world = w ∧ Thread.Same a.spot.thread b.spot.thread ∧
      Relation.ReflTransGen (Sighting.Step R) a b := by
  induction h generalizing b with
  | refl => exact ⟨b, hb, .refl _, .refl⟩
  | @tail v v' hreaches hstep ih =>
    subst hb
    have hsound := Reaches.sound hreaches hw
    have hle := Nat.le_trans hg (Reaches.lastGroup_le hreaches hw)
    obtain ⟨x, hx, -, hsame⟩ := hstep.sight hsound b.sees hle
    obtain ⟨a, ha, hsame', hrun⟩ := ih ⟨v, b.program, x, hx⟩ rfl (hsame.group ▸ hg)
    exact ⟨a, ha, hsame'.trans hsame, hrun.tail ⟨hstep, hsame⟩⟩

end World

end BlockScript
