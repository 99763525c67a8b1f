import BlockScript.Proofs.Acts
import Mathlib.Data.List.DropRight

/-!
# Sound machines

A machine is sound if each waiting thread has a target that lives, the stage is there, and programs
and threads are as an invariant asks. Whatever happens to a machine keeps it so.

* `Invariant`: what is asked of programs and of threads;
* `Machine.Sound`: what holds of a machine between two acts;
* `Machine.Continues`: the machine stays sound, and no target is lost;
* `Machine.continues_trigger`, `Machine.continues_createClone` and others: events and clones;
* `Machine.sound_deleteClone`, `Machine.sound_stopAll`: where targets are lost, their threads are.
-/

namespace BlockScript

/-! ## 1. Targets that last -/

/-- The same target at a later time. -/
structure Target.Same (t t' : Target) : Prop where
  id : t'.id = t.id
  program : t'.program = t.program
  isStage : t'.isStage = t.isStage
  isClone : t'.isClone = t.isClone

namespace Target

theorem Same.refl (t : Target) : Same t t := ⟨rfl, rfl, rfl, rfl⟩

theorem Same.trans {a b c : Target} (h : Same a b) (h' : Same b c) : Same a c :=
  ⟨h'.id.trans h.id, h'.program.trans h.program, h'.isStage.trans h.isStage,
    h'.isClone.trans h.isClone⟩

theorem Kin.same {t t' : Target} (h : Target.Kin t t') : Same t t' :=
  ⟨h.id, h.program, h.isStage, h.isClone⟩

theorem same_countSwitch (t : Target) : Same t t.countSwitch := by
  unfold countSwitch
  split
  · rename_i switches hbody
    refine ⟨rfl, rfl, ?_, ?_⟩
    · unfold isStage sprite?
      rw [hbody]
    · unfold isClone sprite?
      rw [hbody]
  · exact .refl t

/-- The stage is no clone. -/
theorem isClone_of_isStage {t : Target} (h : t.isStage = true) : t.isClone = false := by
  unfold isStage at h
  unfold isClone
  rw [Option.isNone_iff_eq_none.mp h]
  rfl

end Target

/-- What is asked of programs, and of each thread given the program of its target. It has to hold of
    every thread that an event starts, and of a thread that waits for the next pass as of any. -/
structure Invariant where
  program : Program → Prop
  thread : Program → Thread → Prop
  start : ∀ {p : Program} {e : Event} {base : Label}, program p → base ∈ p.startedBy e →
    ∀ (target : TargetId) (group : GroupId), thread p (.start target base group)
  ready : ∀ {p : Program} {t : Thread}, thread p t → ∀ ready : Bool, thread p { t with ready }

namespace Machine

variable {H : Type} {I : Invariant}

/-- What holds of a machine between two acts. -/
structure Sound (I : Invariant) (m : Machine H) : Prop where
  id : ∀ id t, m.target? id = some t → t.id = id
  program : ∀ id t, m.target? id = some t → I.program t.program
  stage : ∃ t, m.stage? = some t ∧ t.isStage = true
  /-- Identities are given out again only when nobody has them. -/
  free : ∀ id ∈ m.free, m.target? id = none
  nodup : m.free.Nodup
  thread : ∀ t, .waiting t ∈ m.queue →
    ∃ target, m.target? t.target = some target ∧ I.thread target.program t

/-- No target is lost. -/
structure Retains (m m' : Machine H) : Prop where
  stage : m'.stage = m.stage
  target : ∀ id t, m.target? id = some t → ∃ t', m'.target? id = some t' ∧ Target.Same t t'

/-- The machine stays sound, and no target is lost. -/
def Continues (I : Invariant) (m m' : Machine H) : Prop :=
  m.Sound I → m'.Sound I ∧ m.Retains m'

theorem Retains.refl (m : Machine H) : m.Retains m := ⟨rfl, fun _ t ht => ⟨t, ht, .refl t⟩⟩

theorem Retains.trans {a b c : Machine H} (h : a.Retains b) (h' : b.Retains c) : a.Retains c := by
  refine ⟨h'.stage.trans h.stage, fun id t ht => ?_⟩
  obtain ⟨t', ht', hs⟩ := h.target id t ht
  obtain ⟨t'', ht'', hs'⟩ := h'.target id t' ht'
  exact ⟨t'', ht'', hs.trans hs'⟩

/-- A target that is there before and after has one program. -/
def Lasts (m m' : Machine H) : Prop :=
  ∀ id t t', m.target? id = some t → m'.target? id = some t' → t'.program = t.program

/-- Where no target is lost, and then something lasts. -/
theorem Retains.lasts_trans {a b c : Machine H} (h : a.Retains b) (h' : b.Lasts c) :
    a.Lasts c := by
  intro id t t'' ht ht''
  obtain ⟨t', ht', hsame⟩ := h.target id t ht
  rw [h' id t' t'' ht' ht'']
  exact hsame.program

/-- Where no target is new. -/
theorem lasts_of_left {m m' : Machine H}
    (h : ∀ id t, m'.target? id = some t → m.target? id = some t) : m.Lasts m' := by
  intro id t t' ht ht'
  cases ht.symm.trans (h id t' ht')
  rfl

theorem Lasts.refl (m : Machine H) : m.Lasts m := lasts_of_left fun _ _ h => h

theorem Retains.lasts {m m' : Machine H} (h : m.Retains m') : m.Lasts m' :=
  h.lasts_trans (.refl m')

theorem Continues.refl (m : Machine H) : m.Continues I m := fun h => ⟨h, .refl m⟩

theorem Continues.trans {a b c : Machine H} (h : a.Continues I b) (h' : b.Continues I c) :
    a.Continues I c := by
  intro ha
  obtain ⟨hb, hab⟩ := h ha
  obtain ⟨hc, hbc⟩ := h' hb
  exact ⟨hc, hab.trans hbc⟩

/-- The stage and the threads stay where no target is lost. -/
theorem Sound.retain {m m' : Machine H} (h : m.Sound I) (hr : m.Retains m')
    (hid : ∀ id t, m'.target? id = some t → t.id = id)
    (hprogram : ∀ id t, m'.target? id = some t → I.program t.program)
    (hfree : ∀ id ∈ m'.free, m'.target? id = none) (hnodup : m'.free.Nodup)
    (hqueue : m'.queue = m.queue) : m'.Sound I := by
  refine ⟨hid, hprogram, ?_, hfree, hnodup, ?_⟩
  · obtain ⟨t, ht, hstage⟩ := h.stage
    obtain ⟨t', ht', hs⟩ := hr.target m.stage t ht
    refine ⟨t', ?_, hs.isStage.trans hstage⟩
    rw [stage?, hr.stage]
    exact ht'
  · intro t ht
    rw [hqueue] at ht
    obtain ⟨target, htarget, hfits⟩ := h.thread t ht
    obtain ⟨target', htarget', hs⟩ := hr.target _ _ htarget
    refine ⟨target', htarget', ?_⟩
    rw [hs.program]
    exact hfits

/-- What leaves the targets alone and adds no thread. -/
theorem continues_of_queue {m m' : Machine H} (htargets : m'.targets = m.targets)
    (hstage : m'.stage = m.stage) (hfree : m'.free = m.free)
    (hqueue : ∀ t, .waiting t ∈ m'.queue → .waiting t ∈ m.queue) : m.Continues I m' := by
  intro h
  have htarget (id : TargetId) : m'.target? id = m.target? id := by
    unfold target?
    rw [htargets]
  refine ⟨⟨fun id t ht => ?_, fun id t ht => ?_, ?_, fun id hid => ?_, ?_, fun t ht => ?_⟩,
    hstage, fun id t ht => ⟨t, ?_, .refl t⟩⟩
  · rw [htarget] at ht
    exact h.id id t ht
  · rw [htarget] at ht
    exact h.program id t ht
  · rw [stage?, hstage, htarget]
    exact h.stage
  · rw [hfree] at hid
    rw [htarget]
    exact h.free id hid
  · rw [hfree]
    exact h.nodup
  · rw [htarget]
    exact h.thread t (hqueue t ht)
  · rw [htarget]
    exact ht

/-- What touches neither targets nor queue. -/
theorem continues_of_eq {m m' : Machine H} (htargets : m'.targets = m.targets)
    (hstage : m'.stage = m.stage) (hfree : m'.free = m.free) (hqueue : m'.queue = m.queue) :
    m.Continues I m' :=
  continues_of_queue htargets hstage hfree fun _ ht => hqueue ▸ ht

/-! ## 2. Changes of targets -/

theorem target?_mapTarget (m : Machine H) (id : TargetId) (f : Target → Target) (j : TargetId) :
    (m.mapTarget id f).target? j = if id = j then (m.target? j).map f else m.target? j := by
  unfold target? mapTarget
  rw [List.getElem?_modify]
  by_cases hj : id = j
  · simp only [hj, if_true]
    cases m.targets[j]? with
    | none => rfl
    | some t => cases t <;> rfl
  · simp only [hj, if_false]
    cases m.targets[j]? <;> rfl

theorem continues_mapTarget {m : Machine H} {id : TargetId} {f : Target → Target}
    (hf : ∀ t, m.target? id = some t → Target.Same t (f t)) : m.Continues I (m.mapTarget id f) := by
  intro h
  -- each target is the one before, or what it became
  have hback (j : TargetId) (t' : Target) (ht' : (m.mapTarget id f).target? j = some t') :
      ∃ t, m.target? j = some t ∧ Target.Same t t' := by
    rw [target?_mapTarget] at ht'
    by_cases hj : id = j
    · rw [if_pos hj] at ht'
      obtain ⟨t, ht, rfl⟩ := Option.map_eq_some_iff.mp ht'
      exact ⟨t, ht, hf t (hj ▸ ht)⟩
    · rw [if_neg hj] at ht'
      exact ⟨t', ht', .refl t'⟩
  have hretains : m.Retains (m.mapTarget id f) := by
    refine ⟨rfl, fun j t ht => ?_⟩
    rw [target?_mapTarget]
    by_cases hj : id = j
    · rw [if_pos hj, ht]
      exact ⟨f t, rfl, hf t (hj ▸ ht)⟩
    · rw [if_neg hj]
      exact ⟨t, ht, .refl t⟩
  refine ⟨h.retain hretains ?_ ?_ ?_ h.nodup rfl, hretains⟩
  · intro j t' ht'
    obtain ⟨t, ht, hs⟩ := hback j t' ht'
    exact hs.id.trans (h.id j t ht)
  · intro j t' ht'
    obtain ⟨t, ht, hs⟩ := hback j t' ht'
    rw [hs.program]
    exact h.program j t ht
  · intro j hj
    rw [target?_mapTarget, h.free j hj]
    split <;> rfl

/-- **A costume is changed** by rolling the dice where chance has the choice, and putting on what is
    chosen. -/
theorem changeCostume_eq (m : Machine H) (t : Target) (v : Value) :
    ∃ dice pick, (∀ others, t.costumeFor v = .another others → pick = (m.dice.below others).1) ∧
      m.changeCostume t v = ((t.dress v pick).costume != t.costume,
        ({ m with dice } : Machine H).mapTarget t.id fun _ => t.dress v pick) := by
  unfold changeCostume
  cases t.costumeFor v with
  | another count =>
    refine ⟨(m.dice.below count).2, (m.dice.below count).1, fun others h => ?_, rfl⟩
    cases h
    rfl
  | stay | wear => exact ⟨m.dice, 0, nofun, rfl⟩

theorem continues_roll {α : Type} (m : Machine H) (f : Dice → α × Dice) :
    m.Continues I (m.roll f).2 :=
  continues_of_eq rfl rfl rfl rfl

theorem continues_changeCostume {m : Machine H} {t : Target} (ht : m.target? t.id = some t)
    (v : Value) : m.Continues I (m.changeCostume t v).2 := by
  obtain ⟨dice, pick, -, heq⟩ := m.changeCostume_eq t v
  have hrolled : m.Continues I { m with dice } := continues_of_eq rfl rfl rfl rfl
  rw [heq]
  refine hrolled.trans (continues_mapTarget fun t' ht' => ?_)
  cases ht.symm.trans ht'
  exact (Target.Kin.dress t v pick).same

theorem continues_announceCostume [Host H] (m : Machine H) (id : TargetId) :
    m.Continues I (m.announceCostume id) := by
  unfold announceCostume
  split
  · exact .refl m
  · exact continues_of_eq rfl rfl rfl rfl

/-! ## 3. Events -/

/-- What adds threads only, each of which can go on in the program of a target that lives. -/
theorem continues_of_threads {m m' : Machine H} (htargets : m'.targets = m.targets)
    (hstage : m'.stage = m.stage) (hfree : m'.free = m.free)
    (hqueue : m.Sound I → ∀ t, .waiting t ∈ m'.queue → .waiting t ∈ m.queue ∨
      ∃ target, m.target? t.target = some target ∧ I.thread target.program t) :
    m.Continues I m' := by
  intro h
  have hbare : m.Continues I { m' with queue := m.queue } :=
    continues_of_eq htargets hstage hfree rfl
  obtain ⟨hsound, hretains⟩ := hbare h
  refine ⟨⟨hsound.id, hsound.program, hsound.stage, hsound.free, hsound.nodup, fun t ht => ?_⟩,
    hretains.stage, hretains.target⟩
  have heq : m'.target? t.target = m.target? t.target := by
    unfold target?
    rw [htargets]
  rw [heq]
  rcases hqueue h t ht with hold | hnew
  · exact h.thread t hold
  · exact hnew

theorem targets_startThread (m : Machine H) (target : TargetId) (base : Label) (group : GroupId) :
    (m.startThread target base group).targets = m.targets := by
  unfold startThread
  dsimp only
  split <;> rfl

theorem continues_startThread {m : Machine H} {id : TargetId} {t : Target} {e : Event}
    {base : Label} (ht : m.target? id = some t) (hbase : base ∈ t.program.startedBy e)
    (group : GroupId) : m.Continues I (m.startThread id base group) := by
  have hstart (h : m.Sound I) (ready : Bool) :
      ∃ target, m.target? id = some target ∧
        I.thread target.program { Thread.start id base group with ready } :=
    ⟨t, ht, I.ready (I.start (h.program id t ht) hbase id group) ready⟩
  unfold startThread
  dsimp only
  split
  · refine continues_of_threads rfl rfl rfl fun h thread hmem => ?_
    rcases List.mem_or_eq_of_mem_set hmem with hold | heq
    · exact .inl hold
    · cases heq
      exact .inr (hstart h _)
  · refine continues_of_threads rfl rfl rfl fun h thread hmem => ?_
    rcases List.mem_append.mp hmem with hold | hnew
    · exact .inl hold
    · cases List.mem_singleton.mp hnew
      exact .inr (hstart h true)

theorem continues_startListeners (m : Machine H) (id : TargetId) (e : Event) (group : GroupId) :
    m.Continues I (m.startListeners id e group) := by
  unfold startListeners
  split
  · exact .refl m
  · rename_i t ht
    have hfold (bases : List Label) (hbases : ∀ b ∈ bases, b ∈ t.program.startedBy e)
        (m : Machine H) (ht : m.target? id = some t) :
        m.Continues I (bases.foldl (fun m base => m.startThread id base group) m) := by
      induction bases generalizing m with
      | nil => exact .refl m
      | cons base rest ih =>
        obtain ⟨hbase, hrest⟩ := List.forall_mem_cons.mp hbases
        refine (continues_startThread ht hbase group).trans (ih hrest _ ?_)
        unfold target?
        rw [targets_startThread]
        exact ht
    exact hfold _ (fun _ hb => hb) m ht

/-- **An event keeps a machine sound.** -/
theorem continues_trigger (m : Machine H) (e : Event) : m.Continues I (m.trigger e).2 := by
  have hfold (ids : List TargetId) (group : GroupId) (m : Machine H) :
      m.Continues I (ids.foldl (fun m id => m.startListeners id e group) m) := by
    induction ids generalizing m with
    | nil => exact .refl m
    | cons id rest ih => exact (continues_startListeners m id e group).trans (ih _)
  have hgroup : m.Continues I m.newGroup.2 := continues_of_eq rfl rfl rfl rfl
  exact hgroup.trans (hfold _ _ _)

theorem continues_triggerFor (m : Machine H) (id : TargetId) (e : Event) :
    m.Continues I (m.triggerFor id e).2 := by
  have hgroup : m.Continues I m.newGroup.2 := continues_of_eq rfl rfl rfl rfl
  exact hgroup.trans (continues_startListeners _ id e _)

theorem continues_switchBackdrop [Host H] (m : Machine H) (v : Value) :
    m.Continues I (m.switchBackdrop v).2 := by
  unfold switchBackdrop
  split
  · exact continues_trigger m _
  · rename_i stage hstage
    intro h
    have hid : m.target? stage.id = some stage := by
      rw [h.id m.stage stage hstage]
      exact hstage
    have hchange : m.Continues I (m.changeCostume stage v).2 := continues_changeCostume hid v
    have hcount : (m.changeCostume stage v).2.Continues I
        ((m.changeCostume stage v).2.mapTarget stage.id Target.countSwitch) :=
      continues_mapTarget fun t _ => t.same_countSwitch
    exact (((hchange.trans hcount).trans (continues_announceCostume _ _)).trans
      (continues_trigger _ _)) h

/-! ## 4. Clones -/

theorem program_clone {t clone : Target} {id : TargetId} (h : t.clone? id = some clone) :
    clone.id = id ∧ clone.program = t.program := by
  obtain ⟨s, -, rfl⟩ := Option.map_eq_some_iff.mp h
  exact ⟨rfl, rfl⟩

/-- A new target takes an identity that nobody has. -/
theorem continues_addTarget {m m' : Machine H} {id : TargetId} {new : Target}
    (hgap : m.Sound I → m.target? id = none) (hid : new.id = id)
    (hprogram : m.Sound I → I.program new.program) (hstage : m'.stage = m.stage)
    (hqueue : m'.queue = m.queue) (hfree : m'.free.Sublist m.free)
    (hnew : m.Sound I → id ∉ m'.free)
    (hold : ∀ j, j ≠ id → m'.target? j = m.target? j)
    (hat : ∀ t, m'.target? id = some t → t = new) : m.Continues I m' := by
  intro h
  have hretains : m.Retains m' := by
    refine ⟨hstage, fun j t ht => ⟨t, ?_, .refl t⟩⟩
    have hne : j ≠ id := by
      intro heq
      rw [heq, hgap h] at ht
      cases ht
    rw [hold j hne]
    exact ht
  refine ⟨h.retain hretains ?_ ?_ ?_ (hfree.nodup h.nodup) hqueue, hretains⟩
  · intro j t ht
    by_cases hj : j = id
    · subst hj
      rw [hat t ht, hid]
    · rw [hold j hj] at ht
      exact h.id j t ht
  · intro j t ht
    by_cases hj : j = id
    · subst hj
      rw [hat t ht]
      exact hprogram h
    · rw [hold j hj] at ht
      exact h.program j t ht
  · intro j hj
    have hne : j ≠ id := fun heq => hnew h (heq ▸ hj)
    rw [hold j hne]
    exact h.free j (hfree.subset hj)

theorem target?_eq_none {m : Machine H} {id : TargetId} (h : m.targets.length ≤ id) :
    m.target? id = none := by
  unfold target?
  rw [List.getElem?_eq_none h]
  rfl

/-- **Cloning keeps a machine sound.** -/
theorem continues_createClone (m : Machine H) (of : TargetId) :
    m.Continues I (m.createClone of).2 := by
  unfold createClone
  split
  · exact .refl m
  dsimp only
  split
  · exact .refl m
  · rename_i clone hclone
    obtain ⟨source, hsource, hcopy⟩ := Option.bind_eq_some_iff.mp hclone
    obtain ⟨hid, hprogram⟩ := program_clone hcopy
    refine Continues.trans ?_ (continues_triggerFor _ _ _)
    have hsound (h : m.Sound I) : I.program clone.program := by
      rw [hprogram]
      exact h.program of source hsource
    cases hfree : m.free with
    | nil =>
      rw [hfree, List.headD_nil] at hid
      refine continues_addTarget (fun _ => target?_eq_none (Nat.le_refl _)) hid hsound rfl rfl
        (List.nil_sublist _) (fun _ => List.not_mem_nil) (fun j hj => ?_) fun t ht => ?_
      · unfold target?
        dsimp only
        rw [List.isEmpty_nil, if_pos rfl]
        rcases Nat.lt_or_ge j m.targets.length with hlt | hge
        · rw [List.getElem?_append_left hlt]
        · have hgt : m.targets.length < j := Nat.lt_of_le_of_ne hge (Ne.symm hj)
          rw [List.getElem?_eq_none hge, List.getElem?_eq_none]
          rw [List.length_append]
          exact hgt
      · unfold target? at ht
        dsimp only at ht
        rw [List.isEmpty_nil, if_pos rfl, List.getElem?_concat_length] at ht
        cases ht
        rfl
    | cons id rest =>
      rw [hfree, List.headD_cons] at hid
      refine continues_addTarget (fun h => h.free id ?_) hid hsound rfl rfl ?_ (fun h => ?_)
        (fun j hj => ?_) fun t ht => ?_
      · rw [hfree]
        exact List.mem_cons_self
      · rw [hfree]
        exact List.sublist_cons_self id rest
      · have hnodup := h.nodup
        rw [hfree] at hnodup
        exact (List.nodup_cons.mp hnodup).1
      · unfold target?
        dsimp only
        rw [List.isEmpty_cons, if_neg Bool.false_ne_true, List.headD_cons,
          List.getElem?_set_ne (Ne.symm hj)]
      · unfold target? at ht
        dsimp only at ht
        rw [List.isEmpty_cons, if_neg Bool.false_ne_true, List.headD_cons] at ht
        by_cases hlt : id < m.targets.length
        · rw [List.getElem?_set_self hlt] at ht
          cases ht
          rfl
        · rw [List.getElem?_eq_none] at ht
          · cases ht
          · rw [List.length_set]
            exact Nat.not_lt.mp hlt

/-! ## 5. Threads and targets that end -/

/-- A thread that still waits after the threads of a target have ended is of another target, or in
    the seat to keep. -/
theorem waiting_stopTarget {m : Machine H} {id : TargetId} {keep : Option Nat} {t : Thread}
    (h : .waiting t ∈ (m.stopTarget id keep).queue) :
    .waiting t ∈ m.queue ∧ (keep = none → t.target ≠ id) := by
  obtain ⟨i, hi, heq⟩ := List.mem_mapIdx.mp h
  by_cases hkeep : keep = some i
  · rw [if_pos hkeep] at heq
    refine ⟨heq ▸ List.getElem_mem hi, fun hnone => ?_⟩
    rw [hnone] at hkeep
    cases hkeep
  · rw [if_neg hkeep] at heq
    by_cases hown : (m.occupant? i).map (·.1) = some id
    · rw [if_pos hown] at heq
      cases heq
    · rw [if_neg hown] at heq
      refine ⟨heq ▸ List.getElem_mem hi, fun _ heq' => hown ?_⟩
      have hseat : m.queue[i]? = some (.waiting t) := by
        rw [List.getElem?_eq_getElem hi, heq]
      unfold occupant?
      rw [hseat, ← heq']
      rfl

theorem continues_stopTarget (m : Machine H) (id : TargetId) (keep : Option Nat) :
    m.Continues I (m.stopTarget id keep) :=
  continues_of_queue rfl rfl rfl fun _ ht => (waiting_stopTarget ht).1

/-- Where clones only are lost, and each thread that still waits is of a target that is left. -/
theorem Sound.lose {m m' : Machine H} (h : m.Sound I) (hstage : m'.stage = m.stage)
    (hleft : ∀ id t, m'.target? id = some t → m.target? id = some t)
    (hstays : ∀ id t, m.target? id = some t → t.isClone = false → m'.target? id = some t)
    (hfree : ∀ id ∈ m'.free, m'.target? id = none) (hnodup : m'.free.Nodup)
    (hthread : ∀ t, .waiting t ∈ m'.queue → .waiting t ∈ m.queue ∧
      ∀ target, m.target? t.target = some target → m'.target? t.target = some target) :
    m'.Sound I := by
  refine ⟨fun id t ht => h.id id t (hleft id t ht), fun id t ht => h.program id t (hleft id t ht),
    ?_, hfree, hnodup, fun t ht => ?_⟩
  · obtain ⟨stage, hs, hisStage⟩ := h.stage
    refine ⟨stage, ?_, hisStage⟩
    rw [stage?, hstage]
    exact hstays _ _ hs (Target.isClone_of_isStage hisStage)
  · obtain ⟨hwaits, hlives⟩ := hthread t ht
    obtain ⟨target, htarget, hfits⟩ := h.thread t hwaits
    exact ⟨target, hlives target htarget, hfits⟩

theorem join_set_none {α : Type} (l : List (Option α)) (i j : Nat) :
    (l.set i none)[j]?.join = if j = i then none else l[j]?.join := by
  by_cases hj : j = i
  · subst hj
    rw [if_pos rfl]
    by_cases hlt : j < l.length
    · rw [List.getElem?_set_self hlt]
      rfl
    · rw [List.getElem?_eq_none]
      · rfl
      · rw [List.length_set]
        exact Nat.not_lt.mp hlt
  · rw [if_neg hj, List.getElem?_set_ne (Ne.symm hj)]

theorem target?_of_set_none {m m' : Machine H} {id : TargetId}
    (h : m'.targets = m.targets.set id none) (j : TargetId) :
    m'.target? j = if j = id then none else m.target? j := by
  unfold target?
  rw [h]
  exact join_set_none m.targets id j

/-- Who is there after a clone is deleted was there before. -/
theorem left_deleteClone {m : Machine H} {id j : TargetId} {t : Target}
    (h : (m.deleteClone id).2.target? j = some t) : m.target? j = some t := by
  unfold deleteClone at h
  split at h
  · exact h
  split at h
  · exact h
  rw [target?_of_set_none rfl] at h
  split at h
  · cases h
  · exact h

/-- **A clone that is deleted leaves no thread behind.** -/
theorem sound_deleteClone {m : Machine H} (h : m.Sound I) (id : TargetId) :
    (m.deleteClone id).2.Sound I := by
  have hleft (j : TargetId) (t : Target) : (m.deleteClone id).2.target? j = some t →
      m.target? j = some t :=
    left_deleteClone
  unfold deleteClone at hleft ⊢
  split
  · exact h
  rename_i t ht
  split
  · exact h
  rename_i hclone
  have hisClone : t.isClone = true := by simpa using hclone
  rw [ht] at hleft
  dsimp only at hleft
  rw [if_neg hclone] at hleft
  refine h.lose rfl hleft (fun j t' ht' hsprite => ?_) (fun j hj => ?_) ?_
    fun thread hthread => ?_
  · have hne : j ≠ id := by
      intro heq
      rw [heq, ht] at ht'
      cases ht'
      rw [hsprite] at hisClone
      cases hisClone
    rw [target?_of_set_none rfl, if_neg hne]
    exact ht'
  · rw [target?_of_set_none rfl]
    split
    · rfl
    · rename_i hne
      exact h.free j (List.mem_of_ne_of_mem hne hj)
  · refine List.nodup_cons.mpr ⟨fun hmem => ?_, h.nodup⟩
    rw [h.free id hmem] at ht
    cases ht
  · obtain ⟨hwaits, hother⟩ := waiting_stopTarget hthread
    refine ⟨hwaits, fun target hlives => ?_⟩
    rw [target?_of_set_none rfl, if_neg (hother rfl)]
    exact hlives

theorem join_dropWhile_isNone {α : Type} (l : List (Option α)) (i : Nat) :
    (l.rdropWhile Option.isNone)[i]?.join = l[i]?.join := by
  induction l using List.reverseRecOn with
  | nil => rfl
  | append_singleton l x ih =>
    rw [List.rdropWhile_concat]
    cases x with
    | some a => rfl
    | none =>
      rw [Option.isNone_none, if_pos rfl, ih]
      rcases Nat.lt_or_ge i l.length with hlt | hge
      · rw [List.getElem?_append_left hlt]
      · rw [List.getElem?_eq_none hge, List.getElem?_append_right hge]
        cases hi : i - l.length with
        | zero => rfl
        | succ k => rfl

/-- What is left without the clones. -/
theorem join_withoutClones (targets : List (Option Target)) (i : Nat) :
    (withoutClones targets)[i]?.join = (targets[i]?.join).filter fun t => !t.isClone := by
  have hdrop := join_dropWhile_isNone
    (targets.map fun t => t.filter fun t => !t.isClone) i
  refine Eq.trans hdrop ?_
  rw [List.getElem?_map]
  cases targets[i]? with
  | none => rfl
  | some t => rfl

theorem target?_stopAll [Host H] (m : Machine H) (j : TargetId) :
    m.stopAll.target? j = (m.target? j).filter fun t => !t.isClone :=
  join_withoutClones m.targets j

/-- Who is there after everything stops was there before. -/
theorem left_stopAll [Host H] {m : Machine H} {j : TargetId} {t : Target}
    (h : m.stopAll.target? j = some t) : m.target? j = some t := by
  rw [target?_stopAll] at h
  exact (Option.filter_eq_some_iff.mp h).1

/-- **Where everything stops, the targets that are left are no clones.** -/
theorem sound_stopAll [Host H] {m : Machine H} (h : m.Sound I) : m.stopAll.Sound I := by
  refine h.lose rfl (fun j t ht => left_stopAll ht) (fun j t ht hsprite => ?_) (fun j hj => ?_)
    List.nodup_nil fun thread hthread => ?_
  · rw [target?_stopAll, ht]
    exact Option.filter_eq_some_iff.mpr ⟨rfl, by rw [hsprite]; rfl⟩
  · cases hj
  · have hnone : .waiting thread ∉ m.stopAll.queue := by
      unfold stopAll
      dsimp only
      split
      · intro hmem
        obtain ⟨_, _, heq⟩ := List.mem_map.mp hmem
        cases heq
      · exact List.not_mem_nil
    exact absurd hthread hnone

/-- Where nothing is deleted, nothing changes. -/
theorem deleteClone_false {m : Machine H} {id : TargetId} (h : (m.deleteClone id).1 = false) :
    (m.deleteClone id).2 = m := by
  unfold deleteClone at h ⊢
  split
  · rfl
  · rename_i t ht
    rw [ht] at h
    dsimp only at h
    split
    · rfl
    · rename_i hclone
      rw [if_neg hclone] at h
      cases h

theorem isRunning_stopAll [Host H] (m : Machine H) (seat : Nat) :
    m.stopAll.isRunning seat = false := by
  unfold stopAll isRunning
  dsimp only
  split
  · rename_i hseat
    split at hseat
    · rw [List.getElem?_map] at hseat
      obtain ⟨_, _, heq⟩ := Option.map_eq_some_iff.mp hseat
      cases heq
    · cases hseat
  · rfl

end Machine

end BlockScript
