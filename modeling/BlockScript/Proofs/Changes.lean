import BlockScript.Proofs.Seats
import Mathlib.Logic.Relation

/-!
# What a thread at work can do to a machine

Whatever a statement does to the machine it does in a few ways: a target is changed, an event goes
out, a clone comes or goes, threads are stopped, or something changes that concerns neither targets
nor threads. Here these ways are a relation, so that something that holds along each of them need
not be followed through evaluation and through every statement again.

* `Target.Remains`: the same target, whatever it looks like;
* `Machine.Aside`: nothing happens to targets or threads;
* `Machine.Change`: one change made by a thread, given whose it is and which seat it has left;
* `Act.exec_alters`: a statement makes such changes, one after the other.
-/

namespace BlockScript

/-! ## 1. Targets that remain -/

/-- The same target at a later time: all that never changes about it. -/
structure Target.Remains (t t' : Target) : Prop where
  id : t'.id = t.id
  name : t'.name = t.name
  program : t'.program = t.program
  costumes : t'.costumes = t.costumes
  sounds : t'.sounds = t.sounds
  isStage : t'.isStage = t.isStage
  isClone : t'.isClone = t.isClone

namespace Target

theorem Remains.refl (t : Target) : Remains t t := ⟨rfl, rfl, rfl, rfl, rfl, rfl, rfl⟩

theorem Remains.trans {a b c : Target} (h : Remains a b) (h' : Remains b c) : Remains a c :=
  ⟨h'.id.trans h.id, h'.name.trans h.name, h'.program.trans h.program,
    h'.costumes.trans h.costumes, h'.sounds.trans h.sounds, h'.isStage.trans h.isStage,
    h'.isClone.trans h.isClone⟩

theorem Kin.remains {t t' : Target} (h : Target.Kin t t') : Remains t t' :=
  ⟨h.id, h.name, h.program, h.costumes, h.sounds, h.isStage, h.isClone⟩

theorem remains_countSwitch (t : Target) : Remains t t.countSwitch := by
  have hsame := t.same_countSwitch
  have hrest : t.countSwitch.name = t.name ∧ t.countSwitch.costumes = t.costumes ∧
      t.countSwitch.sounds = t.sounds := by
    unfold countSwitch
    split <;> exact ⟨rfl, rfl, rfl⟩
  exact ⟨hsame.id, hrest.1, hsame.program, hrest.2.1, hrest.2.2, hsame.isStage, hsame.isClone⟩

end Target

/-! ## 2. Changes -/

/-- Whether an event goes out by the statement. -/
def Stmt.sends : Stmt → Bool
  | .broadcast .. | .switchBackdrop .. => true
  | _ => false

namespace Machine

variable {H : Type}

/-- Nothing happens to targets or threads; the host, the clock, the dice and the answer are no
    part of them. -/
structure Aside (m m' : Machine H) : Prop where
  targets : m'.targets = m.targets
  order : m'.order = m.order
  free : m'.free = m.free
  stage : m'.stage = m.stage
  queue : m'.queue = m.queue
  running : m'.running = m.running
  options : m'.options = m.options
  lastGroup : m'.lastGroup = m.lastGroup
  clones : m'.clones = m.clones

theorem Aside.refl (m : Machine H) : m.Aside m := ⟨rfl, rfl, rfl, rfl, rfl, rfl, rfl, rfl, rfl⟩

/-! ### Events -/

theorem startThread_eq (m : Machine H) (target : TargetId) (base : Label) (group : GroupId) :
    m.startThread target base group =
      { m with queue := (m.startThread target base group).queue } := by
  unfold startThread
  dsimp only
  split <;> rfl

theorem startListeners_eq (m : Machine H) (id : TargetId) (e : Event) (group : GroupId) :
    m.startListeners id e group = { m with queue := (m.startListeners id e group).queue } := by
  refine startListeners_induction (P := fun m' => m' = { m with queue := m'.queue }) rfl
    fun m' base h => ?_
  rw [startThread_eq, h]

/-- **An event changes nothing but the queue** and counts as one more group. -/
theorem trigger_eq (m : Machine H) (e : Event) :
    (m.trigger e).2 =
      { m with queue := (m.trigger e).2.queue, lastGroup := m.lastGroup + 1 } := by
  have hfold (ids : List TargetId) (group : GroupId) (m : Machine H) :
      ids.foldl (fun m id => m.startListeners id e group) m =
        { m with queue := (ids.foldl (fun m id => m.startListeners id e group) m).queue } := by
    induction ids generalizing m with
    | nil => rfl
    | cons id rest ih =>
      rw [List.foldl_cons, ih, startListeners_eq]
  exact hfold _ _ _

theorem triggerFor_eq (m : Machine H) (id : TargetId) (e : Event) :
    (m.triggerFor id e).2 =
      { m with queue := (m.triggerFor id e).2.queue, lastGroup := m.lastGroup + 1 } :=
  startListeners_eq _ id e _

/-! ### Costumes and backdrops -/

theorem stage_changeCostume (m : Machine H) (t : Target) (v : Value) :
    (m.changeCostume t v).2.stage = m.stage := by
  obtain ⟨dice, pick, -, heq⟩ := m.changeCostume_eq t v
  rw [heq]
  rfl

/-- A target whose costume is changed is there afterwards, with the identity that it had. -/
theorem target?_changeCostume {m : Machine H} {id : TargetId} {t : Target}
    (ht : m.target? id = some t) (v : Value) :
    ∃ t', (m.changeCostume t v).2.target? id = some t' ∧ t'.id = t.id := by
  obtain ⟨dice, pick, -, heq⟩ := m.changeCostume_eq t v
  have hfound : ({ m with dice } : Machine H).target? id = some t := ht
  rw [heq, target?_mapTarget, hfound]
  split
  · exact ⟨_, rfl, rfl⟩
  · exact ⟨t, rfl, rfl⟩

/-! ### What a thread does -/

/-- One change that a thread makes by a statement: `own` is the target of the thread, and `seat` is
    the seat that it has left. -/
inductive Change [Host H] (own : TargetId) (seat : Nat) : Stmt → Machine H → Machine H → Prop
  | aside {s : Stmt} {m m' : Machine H} (h : m.Aside m') : Change own seat s m m'
  /-- A thread changes its own target, or the stage. -/
  | modify {s : Stmt} (m : Machine H) {id : TargetId} {t : Target} {f : Target → Target}
      (hid : id = own ∨ id = m.stage) (ht : m.target? id = some t) (hf : Target.Remains t (f t)) :
      Change own seat s m (m.mapTarget t.id f)
  | trigger {s : Stmt} (hs : s.sends = true) (m : Machine H) (e : Event) :
      Change own seat s m (m.trigger e).2
  | createClone {name : Expr} (m : Machine H) (of : TargetId) :
      Change own seat (.createClone name) m (m.createClone of).2
  | deleteClone (m : Machine H) : Change own seat .deleteClone m (m.deleteClone own).2
  | stopOthers (m : Machine H) : Change own seat .stopOthers m (m.stopTarget own (some seat))
  | stopAll (m : Machine H) : Change own seat .stopAll m m.stopAll

variable [Host H]

/-- Changes by a statement, one after the other. -/
abbrev Alters (own : TargetId) (seat : Nat) (s : Stmt) : Machine H → Machine H → Prop :=
  Relation.ReflTransGen (Change own seat s)

variable {own : TargetId} {seat : Nat} {s : Stmt}

theorem aside_announceCostume (m : Machine H) (id : TargetId) :
    m.Aside (m.announceCostume id) := by
  unfold announceCostume
  split
  · exact .refl m
  · exact ⟨rfl, rfl, rfl, rfl, rfl, rfl, rfl, rfl, rfl⟩

theorem alters_aside {m m' : Machine H} (h : m.Aside m') : Alters own seat s m m' :=
  .single (.aside h)

/-- Another costume may be chosen by chance. -/
theorem alters_changeCostume {m : Machine H} {id : TargetId} {t : Target}
    (hid : id = own ∨ id = m.stage) (ht : m.target? id = some t) (v : Value) :
    Alters own seat s m (m.changeCostume t v).2 := by
  obtain ⟨dice, pick, -, heq⟩ := m.changeCostume_eq t v
  have hroll : Alters own seat s m { m with dice } :=
    alters_aside ⟨rfl, rfl, rfl, rfl, rfl, rfl, rfl, rfl, rfl⟩
  rw [heq]
  exact hroll.tail (.modify _ hid ht (Target.Kin.dress t v pick).remains)

/-- **Switching the backdrop** changes the stage, and then an event goes out. -/
theorem switchBackdrop_eq_trigger (m : Machine H) (v : Value) :
    ∃ m', m.switchBackdrop v =
        m'.trigger (.ofBackdrop ((m'.stage?.map Target.costumeName).getD "")) ∧
      (m'.queue = m.queue ∧ m'.running = m.running ∧ m'.lastGroup = m.lastGroup) ∧
      (∀ I, m.Continues I m') ∧ ∀ own seat s, Alters own seat s m m' := by
  unfold switchBackdrop
  split
  · rename_i hnone
    refine ⟨m, ?_, ⟨rfl, rfl, rfl⟩, fun _ => .refl m, fun _ _ _ => .refl⟩
    rw [hnone]
    rfl
  · rename_i stage hstage
    refine ⟨_, rfl, ?_, fun I hm => ?_, fun own seat s => ?_⟩
    · have hannounce (m : Machine H) := aside_announceCostume m stage.id
      refine ⟨(hannounce _).queue.trans ?_, (hannounce _).running.trans ?_,
        (hannounce _).lastGroup.trans ?_⟩
      · exact Act.queue_changeCostume m stage v
      · exact (evolves_changeCostume m stage v).seats.running
      · obtain ⟨dice, pick, -, heq⟩ := m.changeCostume_eq stage v
        rw [heq]
        rfl
    · have hid : m.target? stage.id = some stage := by
        rw [hm.id m.stage stage hstage]
        exact hstage
      have hcount : (m.changeCostume stage v).2.Continues I
          ((m.changeCostume stage v).2.mapTarget stage.id Target.countSwitch) :=
        continues_mapTarget fun t _ => t.same_countSwitch
      exact (((continues_changeCostume hid v).trans hcount).trans
        (continues_announceCostume _ _)) hm
    · obtain ⟨t, ht, hid⟩ := target?_changeCostume hstage v
      have hchange : Alters own seat s m (m.changeCostume stage v).2 :=
        alters_changeCostume (.inr rfl) hstage v
      have hcount : Change own seat s (m.changeCostume stage v).2
          ((m.changeCostume stage v).2.mapTarget stage.id Target.countSwitch) := by
        rw [← hid]
        exact .modify _ (.inr (stage_changeCostume m stage v).symm) ht t.remains_countSwitch
      exact (hchange.tail hcount).tail (.aside (aside_announceCostume _ _))

theorem alters_switchBackdrop (hs : s.sends = true) (m : Machine H) (v : Value) :
    Alters own seat s m (m.switchBackdrop v).2 := by
  obtain ⟨m', heq, -, -, halters⟩ := m.switchBackdrop_eq_trigger v
  rw [heq]
  exact (halters own seat s).tail (.trigger hs _ _)

end Machine

/-! ## 3. Acts -/

namespace Act

variable {H : Type} [Host H]

/-- The thread is the same, and the machine is altered by it only. -/
structure Alters (s : Stmt) (t t' : Turn H) : Prop where
  thread : Thread.Same t.thread t'.thread
  seat : t'.seat = t.seat
  program : t'.program = t.program
  machine : Machine.Alters t.thread.target t.seat s t.machine t'.machine

variable {s : Stmt}

theorem Alters.refl (t : Turn H) : Alters s t t := ⟨.refl _, rfl, rfl, .refl⟩

theorem Alters.trans (a b c : Turn H) (h : Alters s a b) (h' : Alters s b c) :
    Alters s a c := by
  refine ⟨h.thread.trans h'.thread, h'.seat.trans h.seat, h'.program.trans h.program,
    h.machine.trans ?_⟩
  rw [← h.thread.target, ← h.seat]
  exact h'.machine

/-- A change of the machine. -/
theorem alters_machine {t : Turn H} {m : Machine H}
    (h : Machine.Alters t.thread.target t.seat s t.machine m) : Alters s t { t with machine := m } :=
  ⟨.refl _, rfl, rfl, h⟩

/-- A change of the thread that leaves it the same thread. -/
theorem alters_thread {t : Turn H} {thread : Thread} (h : Thread.Same t.thread thread) :
    Alters s t { t with thread } :=
  ⟨h, rfl, rfl, .refl⟩

section Small

variable {α : Type}

theorem alters_pure (a : α) : Keeps (Alters s) (pure a : Act H α) := .of_after .refl fun _ => rfl

theorem alters_modifyMachine {f : Machine H → Machine H} (h : ∀ m : Machine H, m.Aside (f m)) :
    Keeps (Alters s) (modifyMachine f) :=
  fun t => alters_machine (Machine.alters_aside (h t.machine))

theorem alters_sensing {r : Prop} {x : Act H α} (h : Sensing r α x) : Keeps (Alters s) x := by
  have haside {t : Turn H} {m : Machine H} (h : t.machine.Aside m) :
      Alters s t { t with machine := m } := alters_machine (Machine.alters_aside h)
  exact keeps_sensing .refl (fun _ _ _ _ => haside ⟨rfl, rfl, rfl, rfl, rfl, rfl, rfl, rfl, rfl⟩)
    (fun _ => haside ⟨rfl, rfl, rfl, rfl, rfl, rfl, rfl, rfl, rfl⟩)
    (fun _ _ h => alters_thread h.kin.same) h

/-- A thread changes its own target. -/
theorem alters_modifyCurrent {f : Target → Target} (hf : ∀ t, Target.Kin t (f t)) :
    Keeps (Alters s) (modifyCurrent (H := H) f) := by
  intro t
  unfold after
  simp only [modifyCurrent, bind_apply, current_apply]
  cases htarget : t.machine.target? t.thread.target with
  | none => exact .refl t
  | some target =>
    exact alters_machine (.single (.modify _ (.inl rfl) htarget (hf target).remains))

/-- A thread changes a variable or list of its own target or of the stage. -/
theorem alters_modifyOwner (storage : Storage) {f : Target → Target} (hf : ∀ t, Target.Kin t (f t)) :
    Keeps (Alters s) (modifyOwner (H := H) storage f) := by
  intro t
  cases hs : storage.owner with
  | target =>
    have hcurrent := alters_modifyCurrent (H := H) (s := s) hf t
    unfold after at hcurrent ⊢
    simp only [modifyCurrent, modifyOwner, bind_apply, owner_apply, hs] at hcurrent ⊢
    exact hcurrent
  | stage =>
    unfold after
    simp only [modifyOwner, bind_apply, owner_apply, hs]
    cases hstage : t.machine.stage? with
    | none => exact .refl t
    | some stage =>
      exact alters_machine (.single (.modify _ (.inr rfl) hstage (hf stage).remains))

theorem alters_announce (id : TargetId) :
    Keeps (Alters s) (modifyMachine (H := H) fun m => m.announceCostume id) :=
  alters_modifyMachine fun m => m.aside_announceCostume id

theorem alters_wearCostume (v : Value) : Keeps (Alters s) (wearCostume (H := H) v) :=
  keeps_wearCostume .refl .trans v
    (fun _ _ ht => alters_machine (Machine.alters_changeCostume (.inl rfl) ht v)) alters_announce

theorem alters_working {r w : Prop} {x : Act H α} (h : Working r w False α x) :
    Keeps (Alters s) x := by
  cases h with
  | sensing h => exact alters_sensing h
  | modifyCurrent f hf => exact alters_modifyCurrent hf
  | modifyOwner storage f hf => exact alters_modifyOwner storage hf
  | wearCostume v => exact alters_wearCostume v
  | announce id => exact alters_announce id
  | registers f => exact fun _ => alters_thread ⟨rfl, rfl, rfl⟩
  | createClone id h | stopOthers h => exact h.elim
  | tellHost | touchScreen | answer | resetTimer =>
    exact alters_modifyMachine fun _ => ⟨rfl, rfl, rfl, rfl, rfl, rfl, rfl, rfl, rfl⟩

theorem alters_moving {r w : Prop} {x : Act H α} (h : Moving r w False α x) :
    Keeps (Alters s) x := by
  cases h with
  | working h => exact alters_working h
  | modifySprite f hf =>
    exact .bind .trans (.of_after .refl after_sprite) fun _ =>
      alters_modifyCurrent fun t => .mapSprite t hf

/-- **Whatever is made of small acts of work alters the machine only as a thread can.** -/
theorem Made.alters {r w : Prop} {x : Act H α} (h : Made (Moving r w False) α x) :
    Keeps (Alters s) x :=
  h.keeps .refl .trans fun _ _ => alters_moving

theorem Made.alters_sensing {r : Prop} {x : Act H α} (h : Made (Sensing r) α x) :
    Keeps (Alters s) x :=
  (h.working (w := True) (d := False)).moving.alters

end Small

/-! ## 4. Statements -/

theorem alters_ifSeated : Keeps (Alters s) (ifSeated (H := H)) := by
  intro t
  unfold after
  rw [ifSeated_apply]
  exact .refl t

theorem alters_execEvent (wait : Bool) {send : Machine H → GroupId × Machine H}
    (h : ∀ (own : TargetId) (seat : Nat) (m : Machine H), Machine.Alters own seat s m (send m).2) :
    Keeps (Alters s) (execEvent wait send) := by
  refine .bind .trans (fun t => alters_machine (h _ _ _)) fun g => ?_
  split
  · exact .bind .trans (fun _ => alters_thread ⟨rfl, rfl, rfl⟩) fun _ => alters_ifSeated
  · exact alters_ifSeated

theorem alters_execClone (name : Expr) (of : String) :
    Keeps (Alters (.createClone name)) (execClone (H := H) of) := by
  refine .bind .trans (.of_after .refl fun _ => rfl) fun _ =>
    .bind .trans (.of_after .refl fun _ => rfl) fun _ => ?_
  dsimp only
  split
  · exact .bind .trans (fun t => alters_machine (.single (.createClone _ _))) fun _ => alters_pure _
  · exact alters_pure _

/-- **A statement alters the machine only as a thread can**, and leaves the thread the same. -/
theorem exec_alters (s : Stmt) : Keeps (Alters s) (exec (H := H) s) := by
  cases s with
  | broadcast message wait =>
    exact .bind .trans (made_evalText message.frees_true).alters_sensing fun _ =>
      alters_execEvent wait fun _ _ m => .single (.trigger rfl m _)
  | switchBackdrop backdrop wait =>
    exact .bind .trans (made_eval backdrop.frees_true).alters_sensing fun _ =>
      .bind .trans (alters_working (r := True) (w := True) .touchScreen) fun _ =>
        alters_execEvent wait fun _ _ m => Machine.alters_switchBackdrop rfl m _
  | deleteClone =>
    intro t
    have hdelete : Alters .deleteClone t
        { t with machine := (t.machine.deleteClone t.thread.target).2 } :=
      alters_machine (.single (.deleteClone _))
    unfold after
    simp only [exec, bind_apply, thread_apply, ask_apply]
    cases (t.machine.deleteClone t.thread.target).1 with
    | true =>
      rw [if_pos rfl]
      exact hdelete
    | false =>
      rw [if_neg Bool.false_ne_true]
      exact hdelete
  | stopAll =>
    exact .bind .trans (fun t => alters_machine (.single (.stopAll _))) fun _ => alters_ifSeated
  | createClone of =>
    exact .bind .trans (made_evalText of.frees_true).alters_sensing fun _ =>
      .bind .trans (alters_execClone _ _) fun _ => alters_pure _
  | stopOthers =>
    exact .bind .trans (fun t => alters_machine (.single (.stopOthers _))) fun _ => alters_pure _
  | _ =>
    refine keeps_exec .refl .trans (fun _ _ => alters_moving) (fun _ _ => alters_thread) rfl ?_
    intro h
    cases h

end Act

end BlockScript
