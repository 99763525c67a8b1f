import BlockScript.Proofs.Worlds

/-!
# Order in every state

What holds of the seats and of the threads in every state that a project ever comes to, also in the
middle of a turn and after a fault.

* `Machine.Tidy`: no script has two seats, and only the thread at work has left its seat;
* `Discipline`, `Regime`: an invariant of threads, those that wait and the one at work;
* `World.Step.obeys`, `World.Reaches.obeys`: a step keeps it, so it holds in every state;
* `World.one_seat_per_script`: no script ever has two seats, whatever the programs are.
-/

namespace BlockScript

/-! ## 1. Tidy queues -/

/-- Whose script has the seat, if a thread waits in it. -/
def Seat.script? : Seat → Option (TargetId × Label)
  | .waiting t => some (t.target, t.base)
  | .empty | .running => none

namespace Machine

variable {H : Type}

/-- A queue in order. -/
structure Tidy (m : Machine H) : Prop where
  distinct : m.Distinct
  /-- Only the thread at work has left its seat. -/
  lent : ∀ i : Nat, m.queue[i]? = some .running → ∃ r, m.running = some r ∧ r.seat = i
  /-- Threads belong to events that there were. -/
  issued : ∀ t : Thread, .waiting t ∈ m.queue → t.group ≤ m.lastGroup

theorem Distinct.of_occupants {m m' : Machine H} (h : m.Distinct)
    (hm : ∀ i script, m'.occupant? i = some script → m.occupant? i = some script) : m'.Distinct :=
  fun i j script hi hj => h i j script (hm i script hi) (hm j script hj)

/-- The scripts of the threads that wait are distinct, if no thread is at work. -/
theorem distinct_iff_nodup {m : Machine H} (h : m.running = none) :
    m.Distinct ↔ (m.queue.filterMap Seat.script?).Nodup := by
  have hoccupant (i : Nat) (script : TargetId × Label) :
      m.occupant? i = some script ↔ ∃ s, m.queue[i]? = some s ∧ s.script? = some script := by
    unfold occupant?
    rw [h]
    cases m.queue[i]? with
    | none => simp
    | some s => cases s <;> simp [Seat.script?]
  rw [List.Nodup, List.pairwise_filterMap, List.pairwise_iff_getElem]
  constructor
  · intro hd i j hi hj hij x hx y hy hxy
    have heq := hd i j x ((hoccupant i x).mpr ⟨_, List.getElem?_eq_getElem hi, hx⟩)
      ((hoccupant j x).mpr ⟨_, List.getElem?_eq_getElem hj, hxy ▸ hy⟩)
    omega
  · intro hp i j script hi hj
    obtain ⟨a, ha, hascript⟩ := (hoccupant i script).mp hi
    obtain ⟨b, hb, hbscript⟩ := (hoccupant j script).mp hj
    obtain ⟨hilt, rfl⟩ := List.getElem?_eq_some_iff.mp ha
    obtain ⟨hjlt, rfl⟩ := List.getElem?_eq_some_iff.mp hb
    rcases Nat.lt_trichotomy i j with hlt | heq | hgt
    · exact absurd rfl (hp i j hilt hjlt hlt script hascript script hbscript)
    · exact heq
    · exact absurd rfl (hp j i hjlt hilt hgt script hbscript script hascript)

theorem Tidy.evolves {m m' : Machine H} (h : m.Tidy) (he : m.Evolves m') : m'.Tidy := by
  refine ⟨he.seats.distinct h.distinct, fun i hi => ?_, fun t ht => ?_⟩
  · rw [he.seats.running]
    exact h.lent i (he.seats.lent i hi)
  · obtain ⟨i, hi⟩ := List.getElem?_of_mem ht
    rcases he.seats.waiting i t hi with hold | ⟨-, hnew⟩
    · exact Nat.le_trans (h.issued t (List.mem_of_getElem? hold)) he.lastGroup
    · exact hnew

theorem getElem?_of_ready? {m : Machine H} {i : Nat} {t : Thread} (h : m.ready? i = some t) :
    m.queue[i]? = some (.waiting t) := by
  unfold ready? at h
  split at h
  · rename_i thread hseat
    split at h
    · cases h
      exact hseat
    · cases h
  · cases h

theorem getElem?_lend {m : Machine H} {i : Nat} {t : Thread} (h : m.ready? i = some t) :
    (m.lend i t).queue[i]? = some .running :=
  List.getElem?_set_self (List.getElem?_eq_some_iff.mp (getElem?_of_ready? h)).1

/-- A thread that leaves its seat for its turn is the only one that has. -/
theorem tidy_lend {m : Machine H} (h : m.Tidy) (hrunning : m.running = none) {i : Nat} {t : Thread}
    (hready : m.ready? i = some t) : (m.lend i t).Tidy := by
  have hseat (j : Nat) (s : Seat) (hs : (m.lend i t).queue[j]? = some s) :
      (i ≠ j ∧ m.queue[j]? = some s) ∨ i = j ∧ s = .running := by
    by_cases hij : i = j
    · subst hij
      rw [getElem?_lend hready] at hs
      exact .inr ⟨rfl, (Option.some.inj hs).symm⟩
    · exact .inl ⟨hij, (List.getElem?_set_ne hij).symm.trans hs⟩
  have hnone (j : Nat) : m.queue[j]? ≠ some .running := by
    intro hj
    obtain ⟨r, hr, -⟩ := h.lent j hj
    rw [hrunning] at hr
    cases hr
  refine ⟨h.distinct.of_occupants fun j script hj => ?_, fun j hj => ?_, fun t' ht' => ?_⟩
  · rcases occupant?_eq_some.mp hj with ⟨t', ht', rfl⟩ | ⟨-, r, hr, rfl, rfl⟩
    · rcases hseat j _ ht' with ⟨-, hold⟩ | ⟨-, hlent⟩
      · exact occupant?_waiting hold
      · cases hlent
    · cases hr
      exact occupant?_waiting (getElem?_of_ready? hready)
  · rcases hseat j _ hj with ⟨-, hold⟩ | ⟨rfl, -⟩
    · exact absurd hold (hnone j)
    · exact ⟨_, rfl, rfl⟩
  · rcases List.mem_or_eq_of_mem_set ht' with hold | heq
    · exact h.issued t' hold
    · cases heq

/-- A turn ends: the thread goes back to its seat, or leaves it empty. -/
theorem tidy_settle {m : Machine H} (h : m.Tidy) {r : Running} (hr : m.running = some r) {s : Seat}
    (hrunning : s ≠ .running)
    (hs : ∀ t, s = .waiting t → (t.target, t.base) = (r.target, r.base) ∧ t.group ≤ m.lastGroup) :
    (m.settle r.seat s).Tidy := by
  have hseat (j : Nat) (s' : Seat) (hs' : (m.settle r.seat s).queue[j]? = some s') :
      (m.queue[j]? = some s' ∧ s' ≠ .running) ∨
        r.seat = j ∧ s' = s ∧ m.queue[j]? = some .running := by
    unfold settle at hs'
    dsimp only at hs'
    have hother (hj : m.queue[j]? = some s') (hne : r.seat = j → s' ≠ .running) :
        m.queue[j]? = some s' ∧ s' ≠ .running := by
      refine ⟨hj, fun heq => ?_⟩
      obtain ⟨r', hr', hr'seat⟩ := h.lent j (heq ▸ hj)
      cases hr.symm.trans hr'
      exact hne hr'seat heq
    split at hs'
    · rename_i hlent
      by_cases hij : r.seat = j
      · subst hij
        have hlent := isRunning_iff.mp hlent
        rw [List.getElem?_set_self (List.getElem?_eq_some_iff.mp hlent).1] at hs'
        exact .inr ⟨rfl, (Option.some.inj hs').symm, hlent⟩
      · rw [List.getElem?_set_ne hij] at hs'
        exact .inl (hother hs' fun heq => absurd heq hij)
    · rename_i hlost
      refine .inl (hother hs' fun heq hrun => ?_)
      subst heq hrun
      exact hlost (isRunning_iff.mpr hs')
  refine ⟨h.distinct.of_occupants fun j script hj => ?_, fun j hj => ?_, fun t ht => ?_⟩
  · rcases occupant?_eq_some.mp hj with ⟨t, ht, rfl⟩ | ⟨-, r', hr', -⟩
    · rcases hseat j _ ht with ⟨hold, -⟩ | ⟨rfl, heq, hlent⟩
      · exact occupant?_waiting hold
      · rw [(hs t heq.symm).1]
        exact occupant?_running hr hlent
    · cases hr'
  · rcases hseat j _ hj with ⟨-, hne⟩ | ⟨-, heq, -⟩
    · exact absurd rfl hne
    · exact absurd heq.symm hrunning
  · obtain ⟨j, hj⟩ := List.getElem?_of_mem ht
    rcases hseat j _ hj with ⟨hold, -⟩ | ⟨-, heq, -⟩
    · exact h.issued t (List.mem_of_getElem? hold)
    · exact (hs t heq.symm).2

theorem tidy_endPass {m : Machine H} (h : m.Tidy) (hrunning : m.running = none) :
    m.endPass.Tidy := by
  have hscripts : m.endPass.queue.filterMap Seat.script? = m.queue.filterMap Seat.script? := by
    unfold endPass
    rw [List.filterMap_filterMap]
    congr 1
    funext s
    cases s <;> rfl
  have hwaiting (s : Seat) (hs : s ∈ m.endPass.queue) :
      ∃ t : Thread, .waiting t ∈ m.queue ∧ s = .waiting { t with ready := true } := by
    obtain ⟨s', hs', heq⟩ := List.mem_filterMap.mp hs
    split at heq
    · rename_i t
      cases heq
      exact ⟨t, hs', rfl⟩
    · cases heq
  refine ⟨?_, fun i hi => ?_, fun t ht => ?_⟩
  · have hempty : m.endPass.running = none := hrunning
    rw [distinct_iff_nodup hempty, hscripts]
    exact (distinct_iff_nodup hrunning).mp h.distinct
  · obtain ⟨t, -, heq⟩ := hwaiting _ (List.mem_of_getElem? hi)
    cases heq
  · obtain ⟨t', ht', heq⟩ := hwaiting _ ht
    cases heq
    exact h.issued t' ht'

/-- A machine between two turns: sound, in order, and no thread is at work. -/
structure Settled (I : Invariant) (m : Machine H) : Prop where
  sound : m.Sound I
  tidy : m.Tidy
  running : m.running = none

namespace Settled

variable {I : Invariant}

/-- A change that leaves queue and targets alone. -/
theorem of_eq {m m' : Machine H} (h : m.Settled I) (hcontinues : m.Continues I m')
    (hevolves : m.Evolves m') : m'.Settled I :=
  ⟨(hcontinues h.sound).1, h.tidy.evolves hevolves, hevolves.seats.running.trans h.running⟩

theorem endPass {m : Machine H} (h : m.Settled I) : m.endPass.Settled I :=
  ⟨sound_endPass h.sound, tidy_endPass h.tidy h.running, h.running⟩

variable [Host H]

/-- What is asked for between two frames gives up seats and starts scripts, as events do. -/
theorem evolves {r : Request H} {f : Machine H → Machine H} (hr : r.change? = some f)
    {m : Machine H} (h : m.Settled I) : m.Evolves (f m) := by
  cases r <;> cases hr
  case greenFlag.refl =>
    have hreset : m.Evolves m.stopAll.resetTimer :=
      m.evolves_stopAll.trans (.of_eq rfl rfl rfl)
    exact hreset.trans (evolves_trigger _ _)
  case trigger.refl e => exact m.evolves_trigger e
  case triggerFor.refl id e => exact m.evolves_triggerFor id e
  case switchBackdrop.refl v => exact m.evolves_switchBackdrop v
  case createClone.refl of => exact m.evolves_createClone of
  case deleteClone.refl id => exact m.evolves_deleteClone id
  case stopAll.refl => exact m.evolves_stopAll
  case stopTarget.refl id keep => exact m.evolves_stopTarget id keep
  case halt.refl =>
    refine .of_seats rfl h.running.symm fun i s hi => ?_
    cases hi
  case resetTimer.refl | attend.refl f => exact .of_eq rfl rfl rfl

theorem change {r : Request H} {f : Machine H → Machine H} (hr : r.change? = some f)
    {m : Machine H} (h : m.Settled I) : (f m).Settled I :=
  ⟨Request.sound_change hr h.sound, h.tidy.evolves (h.evolves hr),
    (h.evolves hr).seats.running.trans h.running⟩

end Settled

end Machine

/-! ## 2. Disciplines -/

/-- An invariant of threads, those that wait and the one at work. What holds of a thread at work
    may depend on the label that it came to last and on the statements that it has left. -/
structure Discipline (R : Rules) extends Invariant where
  working : Program → Thread → Label → List Stmt → Prop
  enter : ∀ {p : Program} {t : Thread} {code : List Stmt}, program p → thread p t →
    R.finds p t.continuation code → working p t t.continuation code
  onward : ∀ {p : Program} {s : Stmt} {t t' : Thread} {l : Label} {code rest : List Stmt},
    program p → working p t l (s :: rest) → Act.Onward s t code t' → working p t' l (code ++ rest)
  jump : ∀ {p : Program} {s : Stmt} {t t' : Thread} {l k : Label} {code rest : List Stmt},
    program p → working p t l (s :: rest) → Act.Departs p s t k t' → R.finds p k code →
      working p t' k code
  yield : ∀ {p : Program} {s : Stmt} {t t' : Thread} {l k : Label} {rest : List Stmt},
    program p → working p t l (s :: rest) → Act.Departs p s t k t' →
      thread p { t' with continuation := k }

/-- An invariant of threads like that, of which it is only known that executing statements keeps
    it. -/
structure Regime (H : Type) [Host H] (R : Rules) extends Invariant where
  working : Program → Thread → Label → List Stmt → Prop
  enter : ∀ {p : Program} {t : Thread} {code : List Stmt}, program p → thread p t →
    R.finds p t.continuation code → working p t t.continuation code
  onward : ∀ {s : Stmt} {t t' : Turn H} {l : Label} {code rest : List Stmt},
    program t.program → working t.program t.thread l (s :: rest) →
      Act.exec s t = .ok (.onward code) t' → working t.program t'.thread l (code ++ rest)
  jump : ∀ {s : Stmt} {t t' : Turn H} {l k : Label} {code rest : List Stmt},
    program t.program → working t.program t.thread l (s :: rest) →
      Act.exec s t = .ok (.leave (.jump k)) t' → R.finds t.program k code →
        working t.program t'.thread k code
  yield : ∀ {s : Stmt} {t t' : Turn H} {l k : Label} {rest : List Stmt},
    program t.program → working t.program t.thread l (s :: rest) →
      Act.exec s t = .ok (.leave (.yield k)) t' →
        thread t.program { t'.thread with continuation := k }

/-- Statements do to threads what a discipline allows. -/
def Discipline.regime {R : Rules} (D : Discipline R) (H : Type) [Host H] : Regime H R where
  toInvariant := D.toInvariant
  working := D.working
  enter := D.enter
  onward hp hworking hexec := D.onward hp hworking (Act.exec_onward hexec)
  jump hp hworking hexec := D.jump hp hworking (Act.exec_departs hexec rfl)
  yield hp hworking hexec := D.yield hp hworking (Act.exec_departs hexec rfl)

/-- Nothing is asked of threads. -/
def Discipline.none (R : Rules) : Discipline R where
  program _ := True
  thread _ _ := True
  start _ _ _ _ := trivial
  ready _ _ := trivial
  working _ _ _ _ := True
  enter _ _ _ := trivial
  onward _ _ _ := trivial
  jump _ _ _ _ := trivial
  yield _ _ _ := trivial

namespace World

variable {H : Type} {R : Rules}

/-- What holds in every state. -/
def Sound (D : Discipline R) : World H → Prop
  | .rest m => m.Settled D.toInvariant
  | .pass m _ _ => m.Settled D.toInvariant
  | .turn t l code _ _ =>
    (t.machine.Sound D.toInvariant ∧ t.machine.Tidy) ∧
      (Act.Seated t ∧ t.thread.group ≤ t.machine.lastGroup) ∧
      D.working t.program t.thread l code

/-- The program of a thread at work is its target's. -/
theorem program_of_seated {I : Invariant} {t : Turn H} (hm : t.machine.Sound I)
    (hs : Act.Seated t) : I.program t.program := by
  obtain ⟨target, htarget, hprogram⟩ := hs.target
  rw [← hprogram]
  exact hm.program _ _ htarget

/-- The end of a turn. -/
theorem settled_settle {I : Invariant} {t t' : Turn H} (hpasses : Act.Passes I t t')
    (htidy : t.machine.Tidy) (hs : Act.Seated t) {s : Seat} (hrunning : s ≠ .running)
    (hseat : ∀ thread, s = .waiting thread →
      Act.Seated t' ∧ Thread.Same t'.thread thread ∧ I.thread t'.program thread ∧
        t.thread.group ≤ t.machine.lastGroup) :
    (t'.machine.settle t'.seat s).Settled I := by
  have hrun : t'.machine.running =
      some ⟨t'.seat, t.thread.target, t.thread.base, t.thread.group⟩ := by
    rw [hpasses.evolves.seats.running, hpasses.seat]
    exact hs.running
  refine ⟨(Machine.continues_settle _ (fun thread heq => ?_) hpasses.machine).1, ?_, rfl⟩
  · obtain ⟨hs', hsame, hthread, -⟩ := hseat thread heq
    obtain ⟨target, htarget, hprogram⟩ := hs'.target
    refine ⟨target, ?_, ?_⟩
    · rw [hsame.target]
      exact htarget
    · rw [hprogram]
      exact hthread
  · refine Machine.tidy_settle (htidy.evolves hpasses.evolves) hrun hrunning fun thread heq => ?_
    obtain ⟨-, hsame, -, hgroup⟩ := hseat thread heq
    have hsame := hpasses.thread.trans hsame
    rw [hsame.target, hsame.base, hsame.group]
    exact ⟨rfl, Nat.le_trans hgroup hpasses.evolves.lastGroup⟩

theorem settled_empty {I : Invariant} {t t' : Turn H} (hpasses : Act.Passes I t t')
    (htidy : t.machine.Tidy) (hs : Act.Seated t) :
    (t'.machine.settle t'.seat .empty).Settled I :=
  settled_settle hpasses htidy hs nofun nofun

/-- Where nothing is asked of threads it does not matter by which rules they are at work. -/
theorem sound_none {R' : Rules} {w : World H} (h : w.Sound (Discipline.none R)) :
    w.Sound (Discipline.none R') := by
  cases w <;> exact h

variable [Host H]

/-- What a regime asks, in every state. -/
def Obeys (G : Regime H R) : World H → Prop
  | .rest m => m.Settled G.toInvariant
  | .pass m _ _ => m.Settled G.toInvariant
  | .turn t l code _ _ =>
    (t.machine.Sound G.toInvariant ∧ t.machine.Tidy) ∧
      (Act.Seated t ∧ t.thread.group ≤ t.machine.lastGroup) ∧
      G.working t.program t.thread l code

theorem obeys_regime {D : Discipline R} {w : World H} : w.Obeys (D.regime H) ↔ w.Sound D := by
  cases w <;> exact Iff.rfl

variable {G : Regime H R} {D : Discipline R}

theorem passes_of_exec {I : Invariant} {s : Stmt} {t t' : Turn H} {c : Control}
    (h : Act.exec s t = .ok c t') (hm : t.machine.Sound I) (hs : Act.Seated t) :
    Act.Passes I t t' ∧ (c ≠ .leave .detached → Act.Seated t') := by
  have horderly := Act.exec_orderly s hm hs
  rw [h] at horderly
  exact horderly

/-- A statement that fails does to the machine what a statement may do. -/
theorem Fails.passes {I : Invariant} {t t' : Turn H} {code : List Stmt} (h : Fails R t code t')
    (hm : t.machine.Sound I) (hs : Act.Seated t) : Act.Passes I t t' := by
  cases h with
  | @fault s _ _ rest e hexec =>
    have horderly := Act.exec_orderly s hm hs
    rw [hexec] at horderly
    exact horderly
  | stray hexec => exact (passes_of_exec hexec hm hs).1
  | exhausted => exact .refl hm

/-- **A step keeps order, and what a regime asks of threads.** -/
theorem Step.obeys {w w' : World H} (h : Step R w w') (hw : w.Obeys G) : w'.Obeys G := by
  -- Statements are the only steps that change the thread at work; all others lend or settle seats.
  cases h with
  | request hr m => exact Machine.Settled.change hr hw
  | setClock _ m | start m | lapse m =>
    exact hw.of_eq (Machine.continues_of_eq rfl rfl rfl rfl) (.of_eq rfl rfl rfl)
  | skip => exact hw
  | @enter m i t target code hready htarget hcode length seats =>
    have hwaits := List.mem_of_getElem? (Machine.getElem?_of_ready? hready)
    obtain ⟨target', htarget', hthread⟩ := hw.sound.thread t hwaits
    cases htarget.symm.trans htarget'
    refine ⟨⟨(Machine.continues_lend m i t hw.sound).1,
      Machine.tidy_lend hw.tidy hw.running hready⟩, ⟨⟨rfl, Machine.getElem?_lend hready, ?_⟩,
        hw.tidy.issued t hwaits⟩, G.enter (hw.sound.program _ _ htarget) hthread hcode⟩
    exact ⟨target, htarget, rfl⟩
  | @refuse m i t hready hno length seats =>
    have hempty :=
      Machine.continues_settle (I := G.toInvariant) (m := m.lend i t) i (s := .empty) nofun
    refine ⟨(hempty (Machine.continues_lend m i t hw.sound).1).1, ?_, rfl⟩
    have hlent := Machine.tidy_lend hw.tidy hw.running hready
    exact Machine.tidy_settle hlent (r := ⟨i, t.target, t.base, t.group⟩) rfl nofun nofun
  | @onward s t t' code hexec l rest length seats =>
    obtain ⟨⟨hm, htidy⟩, ⟨hs, hgroup⟩, hworking⟩ := hw
    obtain ⟨hpasses, hseated⟩ := passes_of_exec hexec hm hs
    refine ⟨⟨hpasses.machine, htidy.evolves hpasses.evolves⟩, ⟨hseated nofun, ?_⟩, ?_⟩
    · rw [hpasses.thread.group]
      exact Nat.le_trans hgroup hpasses.evolves.lastGroup
    · rw [hpasses.program]
      exact G.onward (program_of_seated hm hs) hworking hexec
  | @jump s t t' k code hexec hcode l rest length seats =>
    obtain ⟨⟨hm, htidy⟩, ⟨hs, hgroup⟩, hworking⟩ := hw
    obtain ⟨hpasses, hseated⟩ := passes_of_exec hexec hm hs
    refine ⟨⟨hpasses.machine, htidy.evolves hpasses.evolves⟩, ⟨hseated nofun, ?_⟩, ?_⟩
    · rw [hpasses.thread.group]
      exact Nat.le_trans hgroup hpasses.evolves.lastGroup
    · rw [hpasses.program] at hcode ⊢
      exact G.jump (program_of_seated hm hs) hworking hexec hcode
  | @leave s t t' e seat hexec he l rest length seats =>
    obtain ⟨⟨hm, htidy⟩, ⟨hs, hgroup⟩, hworking⟩ := hw
    obtain ⟨hpasses, hseated⟩ := passes_of_exec hexec hm hs
    cases e with
    | jump k => cases he
    | yield k =>
      cases he
      refine settled_settle hpasses htidy hs nofun ?_
      rintro thread ⟨⟩
      refine ⟨hseated nofun, ⟨rfl, rfl, rfl⟩, ?_, hgroup⟩
      rw [hpasses.program]
      exact G.yield (program_of_seated hm hs) hworking hexec
    | stop | detached =>
      cases he
      exact settled_empty hpasses htidy hs
  | finish t =>
    obtain ⟨⟨hm, htidy⟩, ⟨hs, -⟩, -⟩ := hw
    exact settled_empty (.refl hm) htidy hs
  | fail hfails =>
    obtain ⟨⟨hm, htidy⟩, ⟨hs, -⟩, -⟩ := hw
    exact settled_empty (hfails.passes hm hs) htidy hs
  | again | close =>
    exact hw.endPass.of_eq (Machine.continues_of_eq rfl rfl rfl rfl) (.of_eq rfl rfl rfl)

/-- **What holds of the state that a project starts in holds in every state.** -/
theorem Reaches.obeys {w w' : World H} (h : Reaches R w w') (hw : w.Obeys G) : w'.Obeys G := by
  induction h with
  | refl => exact hw
  | tail _ hstep ih => exact hstep.obeys ih

theorem Step.sound {w w' : World H} (h : Step R w w') (hw : w.Sound D) : w'.Sound D :=
  obeys_regime.mp (h.obeys (obeys_regime.mpr hw))

theorem Reaches.sound {w w' : World H} (h : Reaches R w w') (hw : w.Sound D) : w'.Sound D :=
  obeys_regime.mp (h.obeys (obeys_regime.mpr hw))

end World

/-- A machine that is loaded is settled, if its programs are as an invariant asks. -/
theorem Machine.settled_load {H : Type} {I : Invariant} {p : Project} {programs : List Program}
    (hprograms : ∀ q ∈ programs, I.program q) {o : Options} {host : H} {s : Surroundings}
    {m : Machine H} (h : Machine.load p programs o host s = .ok m) : m.Settled I := by
  obtain ⟨-, -, -, -, -, ⟨-, hqueue, hrunning⟩, -⟩ := exists_of_load h
  refine ⟨sound_load hprograms h, ⟨?_, fun i hi => ?_, fun t ht => ?_⟩, hrunning⟩
  · rw [distinct_iff_nodup hrunning, hqueue]
    exact List.nodup_nil
  · rw [hqueue] at hi
    cases hi
  · rw [hqueue] at ht
    cases ht

/-- The program is that of a target of the project. -/
def Project.Compiles (p : Project) (q : Program) : Prop :=
  ∃ data ∈ p.targets, data.compile p.stage? = .ok q

/-- A project that is loaded is sound, if its programs are as a discipline asks. -/
theorem World.sound_load {H : Type} {R : Rules} {D : Discipline R} {p : Project} {o : Options}
    {host : H} {s : Surroundings} {m : Machine H} (h : Player.loadProject p o host s = .ok m)
    (hD : ∀ q, p.Compiles q → D.program q) : World.Sound D (.rest m) := by
  obtain ⟨programs, hcompile, hload⟩ := except_bind_eq_ok.mp h
  refine Machine.settled_load (fun q hq => hD q ?_) hload
  exact mem_of_mapM_eq_ok hcompile q hq

/-! ## 3. One seat for each script -/

namespace World

variable {H : Type} {R : Rules} {D : Discipline R}

/-- The machine of a sound state is sound and in order. -/
theorem Sound.machine {w : World H} (h : w.Sound D) :
    w.machine.Sound D.toInvariant ∧ w.machine.Tidy := by
  cases w with
  | rest | pass => exact ⟨Machine.Settled.sound h, Machine.Settled.tidy h⟩
  | turn => exact h.1

/-- Each seat that is not empty is somebody's, whose target lives. -/
theorem Sound.occupied {w : World H} (h : w.Sound D) {i : Nat} {s : Seat}
    (hi : w.machine.queue[i]? = some s) (hs : s ≠ .empty) :
    ∃ script target, w.machine.occupant? i = some script ∧
      w.machine.target? script.1 = some target := by
  cases s with
  | empty => exact absurd rfl hs
  | waiting t =>
    obtain ⟨target, htarget, -⟩ := h.machine.1.thread t (List.mem_of_getElem? hi)
    exact ⟨_, target, Machine.occupant?_waiting hi, htarget⟩
  | running =>
    obtain ⟨r, hr, rfl⟩ := h.machine.2.lent i hi
    cases w with
    | rest | pass => cases (Machine.Settled.running h).symm.trans hr
    | turn t l code length seats =>
      obtain ⟨-, ⟨hseated, -⟩, -⟩ := h
      cases hseated.running.symm.trans hr
      obtain ⟨target, htarget, -⟩ := hseated.target
      exact ⟨_, target, Machine.occupant?_running hseated.running hi, htarget⟩

end World

/-- Where no thread is at work, nothing is left to do just if no thread waits. -/
theorem Machine.Settled.isIdle_iff {H : Type} {I : Invariant} {m : Machine H} (h : m.Settled I) :
    .running ∉ m.queue ∧ (m.isIdle = true ↔ m.threads.length = 0) := by
  have hnone : .running ∉ m.queue := by
    intro hmem
    obtain ⟨i, hi⟩ := List.getElem?_of_mem hmem
    obtain ⟨r, hr, -⟩ := h.tidy.lent i hi
    cases h.running.symm.trans hr
  refine ⟨hnone, ?_⟩
  rw [List.length_eq_zero_iff, threads, List.filterMap_eq_nil_iff, isIdle, List.all_eq_true]
  refine forall₂_congr fun s hs => ?_
  cases s with
  | empty | waiting => simp
  | running => exact absurd hs hnone

/-- **At most one thread for each script of each target**, whatever the programs are, in every state
    that a machine comes to by requests and frames, also after a fault and in the middle of a turn:
    no two seats are of the same script, where the seat of the thread at work counts as its own, and
    the target of each occupied seat lives. Between two requests no thread is at work, so nothing is
    left to do just if no thread waits. -/
theorem World.one_seat_per_script {H : Type} [Host H] {p : Project} {programs : List Program}
    {o : Options} {host : H} {s : Surroundings} {m : Machine H}
    (h : Machine.load p programs o host s = .ok m) {w : World H}
    (hw : World.Arises m w) :
    (∀ i j script, w.machine.occupant? i = some script → w.machine.occupant? j = some script →
      i = j) ∧
    (∀ (i : Nat) (seat : Seat), w.machine.queue[i]? = some seat → seat ≠ .empty →
      ∃ script target, w.machine.occupant? i = some script ∧
        w.machine.target? script.1 = some target) ∧
    ∀ m', w = .rest m' →
      m'.running = none ∧ .running ∉ m'.queue ∧ (m'.isIdle = true ↔ m'.threads.length = 0) := by
  have hstart : World.Sound (Discipline.none .cut) (.rest m) :=
    Machine.settled_load (fun _ _ => trivial) h
  have hsound := hw.sound hstart
  refine ⟨hsound.machine.2.distinct, fun i seat => hsound.occupied, ?_⟩
  rintro m' rfl
  exact ⟨Machine.Settled.running hsound, Machine.Settled.isIdle_iff hsound⟩

/-- The event of a script twice, and two clones, each of which starts a script. -/
def startingRequests : List (Request Headless) :=
  [.trigger .flag, .trigger .flag, .createClone 1, .createClone 1]

/-- Whose threads wait when all is done that is asked. -/
def Request.waitingAfter (requests : List (Request Headless)) (m : Machine Headless) :
    Option (List TargetId) :=
  match performAll requests m with
  | .ok _ m' => some (m'.threads.map (·.target))
  | .error _ _ => none

theorem World.cloning_one_seat :
    ∃ programs, ∃ m m' : Machine Headless,
      Machine.load cloningProject programs {} ({} : Headless) .still = .ok m ∧
      World.Arises m (.rest m') ∧
      m'.threads.map (·.target) = [1, 2, 3] ∧ m'.isIdle = false ∧
      ∀ i j script, m'.occupant? i = some script → m'.occupant? j = some script → i = j := by
  have hrun : (Player.loadProject cloningProject {} ({} : Headless) .still).toOption.bind
      (Request.waitingAfter startingRequests) = some [1, 2, 3] := by
    decide +kernel
  obtain ⟨m, hm, hwaiting⟩ := Option.bind_eq_some_iff.mp hrun
  have hload := eq_ok_of_toOption hm
  obtain ⟨programs, -, hload⟩ := except_bind_eq_ok.mp hload
  have hreaches := World.reaches_performAll startingRequests m
  unfold Request.waitingAfter at hwaiting
  cases hplay : Request.performAll startingRequests m with
  | error e m' =>
    rw [hplay] at hwaiting
    cases hwaiting
  | ok u m' =>
    rw [hplay] at hwaiting hreaches
    have htargets := Option.some.inj hwaiting
    obtain ⟨hdistinct, -, hrest⟩ := World.one_seat_per_script hload hreaches
    refine ⟨programs, m, m', hload, hreaches, htargets, ?_, hdistinct⟩
    obtain ⟨-, -, hidle⟩ := hrest m' rfl
    have hlength := congrArg List.length htargets
    rw [List.length_map] at hlength
    rw [Bool.eq_false_iff, ne_eq, hidle, hlength]
    decide

end BlockScript
