import BlockScript.Proofs.Control
import BlockScript.Proofs.Machines

/-!
# Seats

What becomes of the seats of a queue while a thread is at work, or while something is asked of the
machine from outside. A seat stays as it is, or its thread ends, or an event starts its script over;
and at the end there may be new seats. So a script never has two seats.

* `Machine.Distinct`: no script has two seats;
* `Machine.Evolves`: what becomes of the seats, with the groups of the threads that are new;
* `Act.Seated`: the thread at work has its seat still, and its target lives;
* `Act.Advances`: the thread keeps its seat, and the other seats evolve;
* `Act.exec_advances`, `Act.exec_orderly`: what a statement does to the seats.
-/

namespace BlockScript

namespace Machine

variable {H : Type}

/-! ## 1. Occupants -/

theorem occupant?_waiting {m : Machine H} {i : Nat} {t : Thread}
    (h : m.queue[i]? = some (.waiting t)) : m.occupant? i = some (t.target, t.base) := by
  unfold occupant?
  rw [h]

theorem occupant?_running {m : Machine H} {r : Running} (hr : m.running = some r)
    (h : m.queue[r.seat]? = some .running) : m.occupant? r.seat = some (r.target, r.base) := by
  unfold occupant?
  rw [h]
  simp [hr]

/-- A seat is somebody's if a thread waits in it, or has left it for its turn. -/
theorem occupant?_eq_some {m : Machine H} {i : Nat} {script : TargetId × Label} :
    m.occupant? i = some script ↔
      (∃ t, m.queue[i]? = some (.waiting t) ∧ (t.target, t.base) = script) ∨
        m.queue[i]? = some .running ∧
          ∃ r, m.running = some r ∧ r.seat = i ∧ (r.target, r.base) = script := by
  constructor
  · intro h
    unfold occupant? at h
    split at h
    · rename_i t ht
      exact .inl ⟨t, ht, Option.some.inj h⟩
    · rename_i hrunning
      obtain ⟨r, hr, heq⟩ := Option.map_eq_some_iff.mp h
      obtain ⟨hr, hseat⟩ := Option.filter_eq_some_iff.mp hr
      exact .inr ⟨hrunning, r, hr, beq_iff_eq.mp hseat, heq⟩
    · cases h
  · rintro (⟨t, ht, rfl⟩ | ⟨hrunning, r, hr, rfl, rfl⟩)
    · exact occupant?_waiting ht
    · exact occupant?_running hr hrunning

/-- Beyond the end of the queue nobody has a seat. -/
theorem lt_of_getElem? {m : Machine H} {i : Nat} {s : Seat} (h : m.queue[i]? = some s) :
    i < m.queue.length :=
  (List.getElem?_eq_some_iff.mp h).1

theorem lt_of_occupant? {m : Machine H} {i : Nat} {script : TargetId × Label}
    (h : m.occupant? i = some script) : i < m.queue.length := by
  rcases occupant?_eq_some.mp h with ⟨t, ht, -⟩ | ⟨hrunning, -⟩
  · exact lt_of_getElem? ht
  · exact lt_of_getElem? hrunning

/-- No script has two seats. -/
def Distinct (m : Machine H) : Prop :=
  ∀ i j script, m.occupant? i = some script → m.occupant? j = some script → i = j

/-! ## 2. What becomes of seats -/

/-- A thread that waits afterwards waited in the same seat before, or is a new one. -/
structure Reseats (new : Thread → Prop) (m m' : Machine H) : Prop where
  running : m'.running = m.running
  waiting : ∀ (i : Nat) (t : Thread), m'.queue[i]? = some (.waiting t) →
    m.queue[i]? = some (.waiting t) ∨ new t
  lent : ∀ i : Nat, m'.queue[i]? = some .running → m.queue[i]? = some .running
  distinct : m.Distinct → m'.Distinct

namespace Reseats

variable {new new' : Thread → Prop}

theorem refl (m : Machine H) : m.Reseats new m := ⟨rfl, fun _ _ h => .inl h, fun _ h => h, id⟩

theorem trans {a b c : Machine H} (h : a.Reseats new b) (h' : b.Reseats new c) :
    a.Reseats new c := by
  refine ⟨h'.running.trans h.running, fun i t ht => ?_, fun i hi => h.lent i (h'.lent i hi),
    fun hd => h'.distinct (h.distinct hd)⟩
  rcases h'.waiting i t ht with hold | hnew
  · exact h.waiting i t hold
  · exact .inr hnew

theorem mono (hnew : ∀ t, new t → new' t) {m m' : Machine H} (h : m.Reseats new m') :
    m.Reseats new' m' :=
  ⟨h.running, fun i t ht => (h.waiting i t ht).imp_right (hnew t), h.lent, h.distinct⟩

/-- Where seats are only given up. -/
theorem of_seats {m m' : Machine H} (hrunning : m'.running = m.running)
    (h : ∀ (i : Nat) (s : Seat), m'.queue[i]? = some s → s = .empty ∨ m.queue[i]? = some s) :
    m.Reseats new m' := by
  have hkept (i : Nat) (s : Seat) (hs : s ≠ .empty) (hi : m'.queue[i]? = some s) :
      m.queue[i]? = some s :=
    (h i s hi).resolve_left hs
  refine ⟨hrunning, fun i t ht => .inl (hkept i _ nofun ht), fun i hi => hkept i _ nofun hi, ?_⟩
  intro hd i j script hi hj
  have hback (i : Nat) (hi : m'.occupant? i = some script) : m.occupant? i = some script := by
    rw [occupant?_eq_some] at hi ⊢
    rcases hi with ⟨t, ht, heq⟩ | ⟨hlent, r, hr, heq⟩
    · exact .inl ⟨t, hkept i _ nofun ht, heq⟩
    · exact .inr ⟨hkept i _ nofun hlent, r, hrunning ▸ hr, heq⟩
  exact hd i j script (hback i hi) (hback j hj)

/-- Where the queue is left alone. -/
theorem of_eq {m m' : Machine H} (hrunning : m'.running = m.running)
    (hqueue : m'.queue = m.queue) : m.Reseats new m' :=
  of_seats hrunning fun _ _ h => .inr (hqueue ▸ h)

end Reseats

/-- What becomes of the seats of a machine: threads that are new belong to events since then. -/
structure Evolves (m m' : Machine H) : Prop where
  lastGroup : m.lastGroup ≤ m'.lastGroup
  seats : m.Reseats (fun t => m.lastGroup < t.group ∧ t.group ≤ m'.lastGroup) m'

namespace Evolves

theorem refl (m : Machine H) : m.Evolves m := ⟨Nat.le_refl _, .refl m⟩

theorem trans {a b c : Machine H} (h : a.Evolves b) (h' : b.Evolves c) : a.Evolves c := by
  have hle := h.lastGroup
  have hle' := h'.lastGroup
  refine ⟨Nat.le_trans hle hle', (h.seats.mono fun t ht => ?_).trans (h'.seats.mono fun t ht => ?_)⟩
  · exact ⟨ht.1, Nat.le_trans ht.2 hle'⟩
  · exact ⟨Nat.lt_of_le_of_lt hle ht.1, ht.2⟩

theorem of_seats {m m' : Machine H} (hgroup : m'.lastGroup = m.lastGroup)
    (hrunning : m'.running = m.running)
    (h : ∀ (i : Nat) (s : Seat), m'.queue[i]? = some s → s = .empty ∨ m.queue[i]? = some s) :
    m.Evolves m' :=
  ⟨Nat.le_of_eq hgroup.symm, .of_seats hrunning h⟩

theorem of_eq {m m' : Machine H} (hgroup : m'.lastGroup = m.lastGroup)
    (hrunning : m'.running = m.running) (hqueue : m'.queue = m.queue) : m.Evolves m' :=
  ⟨Nat.le_of_eq hgroup.symm, .of_eq hrunning hqueue⟩

end Evolves

/-! ## 3. Events -/

theorem getElem?_concat_eq_some {α : Type} {l : List α} {x a : α} {i : Nat}
    (h : (l ++ [x])[i]? = some a) : l[i]? = some a ∨ i = l.length ∧ a = x := by
  obtain ⟨hlt, -⟩ := List.getElem?_eq_some_iff.mp h
  rcases Nat.lt_or_ge i l.length with hold | hge
  · rw [List.getElem?_append_left hold] at h
    exact .inl h
  · have hlast : i = l.length := by
      rw [List.length_append, List.length_singleton] at hlt
      omega
    rw [hlast, List.getElem?_concat_length] at h
    exact .inr ⟨hlast, (Option.some.inj h).symm⟩

/-- A thread takes a seat, and its script had no other. -/
theorem reseats_of_seat {m m' : Machine H} {k : Nat} {t : Thread}
    (hseat : ∀ (i : Nat) (s : Seat), m'.queue[i]? = some s →
      m.queue[i]? = some s ∨ i = k ∧ s = .waiting t)
    (hown : m.Distinct → ∀ i, m.occupant? i = some (t.target, t.base) → i = k)
    (hrunning : m'.running = m.running) : m.Reseats (· = t) m' := by
  refine ⟨hrunning, fun i t' ht' => ?_, fun i hi => ?_, fun hd i j script hi hj => ?_⟩
  · rcases hseat i _ ht' with hold | ⟨-, heq⟩
    · exact .inl hold
    · cases heq
      exact .inr rfl
  · rcases hseat i _ hi with hold | ⟨-, heq⟩
    · exact hold
    · cases heq
  · -- each seat is as before, but for the one that is taken
    have hback (i : Nat) (hi : m'.occupant? i = some script) :
        m.occupant? i = some script ∨ i = k ∧ script = (t.target, t.base) := by
      rcases occupant?_eq_some.mp hi with ⟨t', ht', rfl⟩ | ⟨hlent, r, hr, hrseat, heq⟩
      · rcases hseat i _ ht' with hold | ⟨hik, heq⟩
        · exact .inl (occupant?_waiting hold)
        · cases heq
          exact .inr ⟨hik, rfl⟩
      · rcases hseat i _ hlent with hold | ⟨-, hwaits⟩
        · exact .inl (occupant?_eq_some.mpr (.inr ⟨hold, r, hrunning ▸ hr, hrseat, heq⟩))
        · cases hwaits
    rcases hback i hi with hi' | ⟨hik, rfl⟩
    · rcases hback j hj with hj' | ⟨hjk, rfl⟩
      · exact hd i j script hi' hj'
      · exact (hown hd i hi').trans hjk.symm
    · rcases hback j hj with hj' | ⟨hjk, -⟩
      · exact hik.trans (hown hd j hj').symm
      · exact hik.trans hjk.symm

/-- A thread takes the seat that its script had. -/
theorem reseats_set {m m' : Machine H} {k : Nat} {t : Thread}
    (hscript : m.occupant? k = some (t.target, t.base))
    (hqueue : m'.queue = m.queue.set k (.waiting t)) (hrunning : m'.running = m.running) :
    m.Reseats (· = t) m' := by
  refine reseats_of_seat (k := k) (fun i s h => ?_) (fun hd i hi => hd i k _ hi hscript) hrunning
  rw [hqueue, List.getElem?_set] at h
  split at h
  · rename_i hki
    split at h
    · exact .inr ⟨hki.symm, (Option.some.inj h).symm⟩
    · cases h
  · exact .inl h

/-- A thread whose script has no seat takes one at the end. -/
theorem reseats_append {m m' : Machine H} {t : Thread}
    (hnew : ∀ i < m.queue.length, m.occupant? i ≠ some (t.target, t.base))
    (hqueue : m'.queue = m.queue ++ [.waiting t]) (hrunning : m'.running = m.running) :
    m.Reseats (· = t) m' := by
  refine reseats_of_seat (k := m.queue.length) (fun i s h => ?_)
    (fun _ i hi => absurd hi (hnew i (lt_of_occupant? hi))) hrunning
  rw [hqueue] at h
  exact getElem?_concat_eq_some h

/-- A new thread takes the seat of its script, or one at the end. -/
theorem reseats_startThread (m : Machine H) (target : TargetId) (base : Label) (group : GroupId) :
    m.Reseats (·.group = group) (m.startThread target base group) := by
  unfold startThread
  dsimp only
  split
  · rename_i k hk
    have hscript : m.occupant? k = some (target, base) := by simpa using List.find?_some hk
    have hseats (t : Thread) (ht : (t.target, t.base) = (target, base)) :
        m.Reseats (· = t) { m with queue := m.queue.set k (.waiting t) } :=
      reseats_set (ht ▸ hscript) rfl rfl
    refine (hseats _ rfl).mono ?_
    rintro t rfl
    rfl
  · rename_i hnone
    have hnew (i : Nat) (hi : i < m.queue.length) : m.occupant? i ≠ some (target, base) := by
      intro heq
      exact List.find?_eq_none.mp hnone i (List.mem_range.mpr hi) (beq_iff_eq.mpr heq)
    have hseats : m.Reseats (· = .start target base group)
        { m with queue := m.queue ++ [.waiting (.start target base group)] } :=
      reseats_append hnew rfl rfl
    refine hseats.mono ?_
    rintro t rfl
    rfl

theorem lastGroup_startThread (m : Machine H) (target : TargetId) (base : Label)
    (group : GroupId) : (m.startThread target base group).lastGroup = m.lastGroup := by
  unfold startThread
  dsimp only
  split <;> rfl

/-- The thread at work keeps its seat when scripts of other targets start. -/
theorem lent_startThread {m : Machine H} {r : Running} (hr : m.running = some r)
    (hseat : m.queue[r.seat]? = some .running) {target : TargetId} (hne : r.target ≠ target)
    (base : Label) (group : GroupId) :
    (m.startThread target base group).queue[r.seat]? = some .running := by
  have hlt : r.seat < m.queue.length := (List.getElem?_eq_some_iff.mp hseat).1
  unfold startThread
  dsimp only
  split
  · rename_i k hk
    have hscript : m.occupant? k = some (target, base) := by simpa using List.find?_some hk
    have hki : k ≠ r.seat := by
      rintro rfl
      rw [occupant?_running hr hseat] at hscript
      cases hscript
      exact hne rfl
    dsimp only
    rw [List.getElem?_set_ne hki]
    exact hseat
  · dsimp only
    rw [List.getElem?_append_left hlt]
    exact hseat

/-- What the scripts of a target that an event starts do to a machine. -/
theorem startListeners_induction {P : Machine H → Prop} {m : Machine H} {id : TargetId} {e : Event}
    {group : GroupId} (hm : P m) (hstep : ∀ m' base, P m' → P (m'.startThread id base group)) :
    P (m.startListeners id e group) := by
  unfold startListeners
  split
  · exact hm
  · rename_i t ht
    clear ht
    generalize t.program.startedBy e = bases
    induction bases generalizing m with
    | nil => exact hm
    | cons base rest ih => exact ih (hstep m base hm)

theorem reseats_startListeners (m : Machine H) (id : TargetId) (e : Event) (group : GroupId) :
    m.Reseats (·.group = group) (m.startListeners id e group) ∧
      (m.startListeners id e group).lastGroup = m.lastGroup := by
  refine startListeners_induction (P := fun m' => m.Reseats (·.group = group) m' ∧
    m'.lastGroup = m.lastGroup) ⟨.refl m, rfl⟩ fun m' base h => ?_
  exact ⟨h.1.trans (reseats_startThread m' id base group),
    (lastGroup_startThread m' id base group).trans h.2⟩

/-- What an event adds to a machine belongs to a group of its own. -/
theorem evolves_of_newGroup {m m' : Machine H}
    (h : m.newGroup.2.Reseats (·.group = m.lastGroup + 1) m')
    (hgroup : m'.lastGroup = m.lastGroup + 1) : m.Evolves m' := by
  have hbare : m.Reseats (fun t => m.lastGroup < t.group ∧ t.group ≤ m'.lastGroup) m.newGroup.2 :=
    .of_eq rfl rfl
  refine ⟨Nat.le_trans (Nat.le_succ _) (Nat.le_of_eq hgroup.symm), hbare.trans (h.mono ?_)⟩
  rintro t heq
  rw [heq, hgroup]
  exact ⟨Nat.lt_succ_self _, Nat.le_refl _⟩

/-- **An event starts scripts, each of them in the seat that it has.** -/
theorem evolves_trigger (m : Machine H) (e : Event) : m.Evolves (m.trigger e).2 := by
  have hfold (ids : List TargetId) (group : GroupId) (m : Machine H) :
      m.Reseats (·.group = group) (ids.foldl (fun m id => m.startListeners id e group) m) ∧
        (ids.foldl (fun m id => m.startListeners id e group) m).lastGroup = m.lastGroup := by
    induction ids generalizing m with
    | nil => exact ⟨.refl m, rfl⟩
    | cons id rest ih =>
      obtain ⟨hseats, hgroup⟩ := reseats_startListeners m id e group
      obtain ⟨hseats', hgroup'⟩ := ih (m.startListeners id e group)
      exact ⟨hseats.trans hseats', hgroup'.trans hgroup⟩
  obtain ⟨hseats, hgroup⟩ := hfold m.newGroup.2.audience (m.lastGroup + 1) m.newGroup.2
  exact evolves_of_newGroup hseats hgroup

theorem evolves_triggerFor (m : Machine H) (id : TargetId) (e : Event) :
    m.Evolves (m.triggerFor id e).2 := by
  obtain ⟨hseats, hgroup⟩ := reseats_startListeners m.newGroup.2 id e (m.lastGroup + 1)
  exact evolves_of_newGroup hseats hgroup

/-- The thread at work keeps its seat when an event goes to another target. -/
theorem lent_triggerFor {m : Machine H} {r : Running} (hr : m.running = some r)
    (hseat : m.queue[r.seat]? = some .running) {id : TargetId} (hne : r.target ≠ id) (e : Event) :
    (m.triggerFor id e).2.queue[r.seat]? = some .running := by
  let P (m' : Machine H) : Prop := m'.running = some r ∧ m'.queue[r.seat]? = some .running
  have hlent : P (m.triggerFor id e).2 := startListeners_induction ⟨hr, hseat⟩ fun m' base h =>
    ⟨(reseats_startThread m' id base _).running.trans h.1, lent_startThread h.1 h.2 hne base _⟩
  exact hlent.2

theorem evolves_changeCostume (m : Machine H) (t : Target) (v : Value) :
    m.Evolves (m.changeCostume t v).2 := by
  obtain ⟨dice, pick, -, heq⟩ := m.changeCostume_eq t v
  rw [heq]
  exact .of_eq rfl rfl rfl

theorem evolves_announceCostume [Host H] (m : Machine H) (id : TargetId) :
    m.Evolves (m.announceCostume id) := by
  unfold announceCostume
  split
  · exact .refl m
  · exact .of_eq rfl rfl rfl

theorem evolves_switchBackdrop [Host H] (m : Machine H) (v : Value) :
    m.Evolves (m.switchBackdrop v).2 := by
  unfold switchBackdrop
  split
  · exact evolves_trigger m _
  · rename_i stage _
    have hchange := evolves_changeCostume m stage v
    have hcount : (m.changeCostume stage v).2.Evolves
        ((m.changeCostume stage v).2.mapTarget stage.id Target.countSwitch) :=
      .of_eq rfl rfl rfl
    exact ((hchange.trans hcount).trans (evolves_announceCostume _ _)).trans (evolves_trigger _ _)

/-! ## 4. Clones, and threads that end -/

theorem evolves_createClone (m : Machine H) (of : TargetId) : m.Evolves (m.createClone of).2 := by
  unfold createClone
  split
  · exact .refl m
  dsimp only
  split
  · exact .refl m
  · refine Evolves.trans ?_ (evolves_triggerFor _ _ _)
    exact .of_eq rfl rfl rfl

/-- The identity that the next clone gets is nobody's. -/
theorem target?_nextClone {I : Invariant} {m : Machine H} (h : m.Sound I) :
    m.target? (m.free.headD m.targets.length) = none := by
  cases hfree : m.free with
  | nil => exact target?_eq_none (Nat.le_refl _)
  | cons id rest => exact h.free id (hfree ▸ List.mem_cons_self)

/-- The thread at work keeps its seat when a sprite is cloned. -/
theorem lent_createClone {I : Invariant} {m : Machine H} (h : m.Sound I) {r : Running}
    (hr : m.running = some r) (hseat : m.queue[r.seat]? = some .running)
    (htarget : ∃ t, m.target? r.target = some t) (of : TargetId) :
    (m.createClone of).2.queue[r.seat]? = some .running := by
  have hne : r.target ≠ m.free.headD m.targets.length := by
    obtain ⟨t, ht⟩ := htarget
    intro heq
    rw [heq, target?_nextClone h] at ht
    cases ht
  unfold createClone
  split
  · exact hseat
  dsimp only
  split
  · exact hseat
  · refine lent_triggerFor ?_ ?_ hne .cloned
    · exact hr
    · exact hseat

theorem seats_stopTarget {m : Machine H} {id : TargetId} {keep : Option Nat} {i : Nat} {s : Seat}
    (h : (m.stopTarget id keep).queue[i]? = some s) : s = .empty ∨ m.queue[i]? = some s := by
  unfold stopTarget at h
  rw [List.getElem?_mapIdx] at h
  obtain ⟨s', hs', heq⟩ := Option.map_eq_some_iff.mp h
  split at heq
  · exact .inr (heq ▸ hs')
  · split at heq
    · exact .inl heq.symm
    · exact .inr (heq ▸ hs')

theorem evolves_stopTarget (m : Machine H) (id : TargetId) (keep : Option Nat) :
    m.Evolves (m.stopTarget id keep) :=
  .of_seats rfl rfl fun _ _ => seats_stopTarget

/-- A seat to keep is kept. -/
theorem lent_stopTarget {m : Machine H} {i : Nat} (h : m.queue[i]? = some .running)
    (id : TargetId) : (m.stopTarget id (some i)).queue[i]? = some .running := by
  unfold stopTarget
  rw [List.getElem?_mapIdx, h, Option.map_some, if_pos rfl]

theorem evolves_deleteClone (m : Machine H) (id : TargetId) : m.Evolves (m.deleteClone id).2 := by
  unfold deleteClone
  split
  · exact .refl m
  · split
    · exact .refl m
    · exact .of_seats rfl rfl fun _ _ => seats_stopTarget

theorem evolves_stopAll [Host H] (m : Machine H) : m.Evolves m.stopAll := by
  refine .of_seats rfl rfl fun i s hs => .inl ?_
  unfold stopAll at hs
  dsimp only at hs
  split at hs
  · rw [List.getElem?_map] at hs
    obtain ⟨_, _, heq⟩ := Option.map_eq_some_iff.mp hs
    exact heq.symm
  · cases hs

/-- The thread of a seat is at work if the seat is marked so. -/
theorem isRunning_iff {m : Machine H} {i : Nat} :
    m.isRunning i = true ↔ m.queue[i]? = some .running := by
  unfold isRunning
  split
  · rename_i h
    simp [h]
  · rename_i h
    simpa using h

end Machine

/-! ## 5. The thread at work -/

/-- Whether the statement can cost the thread that executes it its seat. -/
def Stmt.mayUnseat : Stmt → Bool
  | .broadcast .. | .switchBackdrop .. | .deleteClone | .stopAll => true
  | _ => false

/-- The same thread at a later time: whose script it is and which event started it. -/
structure Thread.Same (t t' : Thread) : Prop where
  target : t'.target = t.target
  base : t'.base = t.base
  group : t'.group = t.group

namespace Thread

theorem Same.refl (t : Thread) : Same t t := ⟨rfl, rfl, rfl⟩

theorem Same.symm {t t' : Thread} (h : Same t t') : Same t' t :=
  ⟨h.target.symm, h.base.symm, h.group.symm⟩

theorem Same.trans {a b c : Thread} (h : Same a b) (h' : Same b c) : Same a c :=
  ⟨h'.target.trans h.target, h'.base.trans h.base, h'.group.trans h.group⟩

theorem Kin.same {t t' : Thread} (h : Thread.Kin t t') : Same t t' := ⟨h.target, h.base, h.group⟩

theorem same_withSaveStack (t : Thread) (saved : List Registers) :
    Same t (t.withSaveStack saved) := by
  unfold withSaveStack
  cases t.calls <;> exact ⟨rfl, rfl, rfl⟩

theorem same_restore? {t t' : Thread} (h : t.restore? = some t') : Same t t' := by
  obtain ⟨_, copies, -, rfl⟩ := Thread.exists_of_restore? h
  have hsame := t.same_withSaveStack copies
  exact ⟨hsame.target, hsame.base, hsame.group⟩

theorem same_endCall? {t t' : Thread} {l : Label} (h : t.endCall? = some (l, t')) : Same t t' := by
  obtain ⟨_, _, -, rfl, rfl⟩ := Thread.exists_of_endCall? h
  exact ⟨rfl, rfl, rfl⟩

end Thread

namespace Act

variable {H : Type} {I : Invariant}

/-- The thread at work has its seat still, and its target lives. -/
structure Seated (t : Turn H) : Prop where
  running : t.machine.running =
    some ⟨t.seat, t.thread.target, t.thread.base, t.thread.group⟩
  seat : t.machine.queue[t.seat]? = some .running
  target : ∃ target, t.machine.target? t.thread.target = some target ∧ target.program = t.program

/-- The machine stays sound, its seats evolve, its targets keep their programs, and the thread at
    work is the same. -/
structure Passes (I : Invariant) (t t' : Turn H) : Prop where
  machine : t'.machine.Sound I
  evolves : t.machine.Evolves t'.machine
  lasts : t.machine.Lasts t'.machine
  thread : Thread.Same t.thread t'.thread
  seat : t'.seat = t.seat
  program : t'.program = t.program

/-- So it is, no target is lost, and the thread keeps its seat. -/
def Advances (I : Invariant) (t t' : Turn H) : Prop :=
  t.machine.Sound I → Seated t →
    Passes I t t' ∧ t.machine.Retains t'.machine ∧ Seated t'

theorem Passes.refl {t : Turn H} (h : t.machine.Sound I) : Passes I t t :=
  ⟨h, .refl _, .refl _, .refl _, rfl, rfl⟩

theorem Passes.trans {a b c : Turn H} (h : Passes I a b) (hr : a.machine.Retains b.machine)
    (h' : Passes I b c) : Passes I a c :=
  ⟨h'.machine, h.evolves.trans h'.evolves, hr.lasts_trans h'.lasts, h.thread.trans h'.thread,
    h'.seat.trans h.seat, h'.program.trans h.program⟩

theorem Advances.refl (t : Turn H) : Advances I t t := fun hm hs => ⟨.refl hm, .refl _, hs⟩

theorem Advances.trans (a b c : Turn H) (h : Advances I a b) (h' : Advances I b c) :
    Advances I a c := by
  intro hm hs
  obtain ⟨hpasses, hretains, hseated⟩ := h hm hs
  obtain ⟨hpasses', hretains', hseated'⟩ := h' hpasses.machine hseated
  exact ⟨hpasses.trans hretains hpasses', hretains.trans hretains', hseated'⟩

/-- A change of the machine that leaves the thread at work its seat. -/
theorem advances_machine {t : Turn H} {m : Machine H} (hcontinues : t.machine.Continues I m)
    (hevolves : t.machine.Evolves m)
    (hlent : t.machine.queue[t.seat]? = some .running → m.queue[t.seat]? = some .running) :
    Advances I t { t with machine := m } := by
  intro hm hs
  obtain ⟨hsound, hretains⟩ := hcontinues hm
  obtain ⟨target, htarget, hprogram⟩ := hs.target
  obtain ⟨target', htarget', hsame⟩ := hretains.target _ _ htarget
  exact ⟨⟨hsound, hevolves, hretains.lasts, .refl _, rfl, rfl⟩, hretains,
    hevolves.seats.running.trans hs.running, hlent hs.seat, target', htarget',
    hsame.program.trans hprogram⟩

/-- A change of the thread that leaves it the same thread. -/
theorem advances_thread {t : Turn H} {thread : Thread} (h : Thread.Same t.thread thread) :
    Advances I t { t with thread } := by
  intro hm hs
  refine ⟨⟨hm, .refl _, .refl _, h, rfl, rfl⟩, .refl _, ?_, hs.seat, ?_⟩
  · show t.machine.running = some ⟨t.seat, thread.target, thread.base, thread.group⟩
    rw [h.target, h.base, h.group]
    exact hs.running
  · show ∃ target, t.machine.target? thread.target = some target ∧ _
    rw [h.target]
    exact hs.target

section Small

variable {α : Type}

theorem advances_modifyMachine {f : Machine H → Machine H}
    (hcontinues : ∀ m : Machine H, m.Continues I (f m)) (hevolves : ∀ m : Machine H, m.Evolves (f m))
    (hqueue : ∀ m : Machine H, (f m).queue = m.queue) : Keeps (Advances I) (modifyMachine f) :=
  fun t => advances_machine (hcontinues _) (hevolves _) fun h => hqueue t.machine ▸ h

theorem advances_sensing {r : Prop} {x : Act H α} (h : Sensing r α x) : Keeps (Advances I) x := by
  have hsame {t : Turn H} {m : Machine H} (hcontinues : t.machine.Continues I m)
      (hevolves : t.machine.Evolves m) (hqueue : m.queue = t.machine.queue) :
      Advances I t { t with machine := m } :=
    advances_machine hcontinues hevolves fun h => hqueue ▸ h
  exact keeps_sensing .refl
    (fun _ _ _ _ => hsame (Machine.continues_of_eq rfl rfl rfl rfl) (.of_eq rfl rfl rfl) rfl)
    (fun _ => hsame (Machine.continues_of_eq rfl rfl rfl rfl) (.of_eq rfl rfl rfl) rfl)
    (fun _ _ h => advances_thread h.kin.same) h

theorem queue_changeCostume (m : Machine H) (t : Target) (v : Value) :
    (m.changeCostume t v).2.queue = m.queue := by
  obtain ⟨dice, pick, -, heq⟩ := m.changeCostume_eq t v
  rw [heq]
  rfl

theorem queue_announceCostume [Host H] (m : Machine H) (id : TargetId) :
    (m.announceCostume id).queue = m.queue := by
  unfold Machine.announceCostume
  split <;> rfl

theorem advances_announce [Host H] (id : TargetId) :
    Keeps (Advances I) (modifyMachine (H := H) fun m => m.announceCostume id) :=
  advances_modifyMachine (fun m => m.continues_announceCostume id)
    (fun m => m.evolves_announceCostume id) fun m => queue_announceCostume m id

theorem advances_mapTarget (id : TargetId) {f : Target → Target} (hf : ∀ t, Target.Kin t (f t)) :
    Keeps (Advances I) (modifyMachine (H := H) fun m => m.mapTarget id f) :=
  advances_modifyMachine (fun _ => Machine.continues_mapTarget fun t _ => (hf t).same)
    (fun _ => .of_eq rfl rfl rfl) fun _ => rfl

/-- Who wears another costume is told so if it is another one. -/
theorem keeps_wearCostume [Host H] {R : Turn H → Turn H → Prop} (hrefl : ∀ t, R t t)
    (htrans : ∀ a b c, R a b → R b c → R a c) (v : Value)
    (hworn : ∀ (t : Turn H) (target : Target), t.machine.target? t.thread.target = some target →
      R t { t with machine := (t.machine.changeCostume target v).2 })
    (htold : ∀ id, Keeps R (modifyMachine (H := H) fun m => m.announceCostume id)) :
    Keeps R (wearCostume (H := H) v) := by
  intro t
  unfold after
  simp only [wearCostume, bind_apply, current_apply]
  cases htarget : t.machine.target? t.thread.target with
  | none => exact hrefl t
  | some target =>
    simp only [ask_apply]
    refine htrans _ _ _ (hworn t target htarget) ?_
    cases (t.machine.changeCostume target v).1 with
    | true => exact htold target.id _
    | false => exact hrefl _

theorem advances_wearCostume [Host H] (v : Value) :
    Keeps (Advances I) (wearCostume (H := H) v) := by
  refine keeps_wearCostume .refl .trans v (fun t target htarget hm => ?_) advances_announce
  have hid : t.machine.target? target.id = some target := by
    rw [hm.id _ _ htarget]
    exact htarget
  refine advances_machine (Machine.continues_changeCostume hid v)
    (t.machine.evolves_changeCostume target v) (fun h => ?_) hm
  rw [queue_changeCostume]
  exact h

theorem advances_working [Host H] {r w d : Prop} {x : Act H α} (h : Working r w d α x) :
    Keeps (Advances I) x := by
  cases h with
  | sensing h => exact advances_sensing h
  | modifyCurrent f hf =>
    exact .bind .trans (advances_sensing (r := True) .current) fun _ => advances_mapTarget _ hf
  | modifyOwner s f hf =>
    exact .bind .trans (advances_sensing (r := True) (.owner s)) fun _ => advances_mapTarget _ hf
  | wearCostume v => exact advances_wearCostume v
  | announce id => exact advances_announce id
  | registers f => exact fun _ => advances_thread ⟨rfl, rfl, rfl⟩
  | createClone id =>
    intro t hm hs
    obtain ⟨target, htarget, -⟩ := hs.target
    exact advances_machine (t.machine.continues_createClone id) (t.machine.evolves_createClone id)
      (fun h => Machine.lent_createClone hm hs.running h ⟨target, htarget⟩ id) hm hs
  | stopOthers =>
    exact fun t => advances_machine (t.machine.continues_stopTarget _ _)
      (t.machine.evolves_stopTarget _ _) fun h => Machine.lent_stopTarget h _
  | tellHost | touchScreen | answer | resetTimer =>
    exact advances_modifyMachine (fun _ => Machine.continues_of_eq rfl rfl rfl rfl)
      (fun _ => .of_eq rfl rfl rfl) fun _ => rfl

theorem advances_moving [Host H] {r w d : Prop} {x : Act H α} (h : Moving r w d α x) :
    Keeps (Advances I) x := by
  cases h with
  | working h => exact advances_working h
  | modifySprite f hf =>
    exact .bind .trans (.of_after .refl after_sprite) fun _ =>
      advances_working (r := r) (w := w) (d := d) (.modifyCurrent _ fun t => .mapSprite t hf)

/-- **Whatever is made of small acts of work leaves the thread its seat.** -/
theorem Made.advances [Host H] {r w d : Prop} {x : Act H α} (h : Made (Moving r w d) α x) :
    Keeps (Advances I) x :=
  h.keeps .refl .trans fun _ _ => advances_moving

theorem Made.advances_sensing [Host H] {r : Prop} {x : Act H α} (h : Made (Sensing r) α x) :
    Keeps (Advances I) x :=
  (h.working (w := True) (d := False)).moving.advances

end Small

/-! ## 6. Statements -/

/-- What holds after a statement: the thread has its seat still, unless it is told otherwise. -/
def Orderly (I : Invariant) (t : Turn H) : EStateM.Result Fault (Turn H) Control → Prop
  | .ok c t' => Passes I t t' ∧ (c ≠ .leave .detached → Seated t')
  | .error _ t' => Passes I t t'

theorem Keeps.orderly {x : Act H Control} (hx : Keeps (Advances I) x) {t : Turn H}
    (hm : t.machine.Sound I) (hs : Seated t) : Orderly I t (x t) := by
  cases h : x t with
  | ok c t' =>
    obtain ⟨hpasses, -, hseated⟩ := hx.of_ok h hm hs
    exact ⟨hpasses, fun _ => hseated⟩
  | error e t' => exact (hx.of_error h hm hs).1

/-- First an act that leaves the thread its seat, then another. -/
theorem Orderly.bind {α : Type} {x : Act H α} {f : α → Act H Control} {t : Turn H}
    (hx : Keeps (Advances I) x) (hm : t.machine.Sound I) (hs : Seated t)
    (hf : ∀ a t', t'.machine.Sound I → Seated t' → Orderly I t' (f a t')) :
    Orderly I t ((x >>= f) t) := by
  rw [bind_apply]
  cases h : x t with
  | error e t' => exact (hx.of_error h hm hs).1
  | ok a t' =>
    obtain ⟨hpasses, hretains, hseated⟩ := hx.of_ok h hm hs
    have horderly := hf a t' hpasses.machine hseated
    show Orderly I t (f a t')
    generalize f a t' = r at horderly ⊢
    cases r with
    | ok c t'' => exact ⟨hpasses.trans hretains horderly.1, horderly.2⟩
    | error e t'' => exact hpasses.trans hretains horderly

/-- After an event the thread goes on only if it has its seat still. -/
theorem orderly_execEvent (wait : Bool) {send : Machine H → GroupId × Machine H}
    (hcontinues : ∀ m : Machine H, m.Continues I (send m).2)
    (hevolves : ∀ m : Machine H, m.Evolves (send m).2) {t : Turn H} (hm : t.machine.Sound I)
    (hs : Seated t) : Orderly I t (execEvent wait send t) := by
  obtain ⟨hsound, hretains⟩ := hcontinues t.machine hm
  -- whatever the thread remembers of the event
  have hseated (thread : Thread) (h : Thread.Same t.thread thread) :
      Orderly I t (ifSeated { t with machine := (send t.machine).2, thread }) := by
    rw [ifSeated_apply]
    refine ⟨⟨hsound, hevolves _, hretains.lasts, h, rfl, rfl⟩, fun hne => ?_⟩
    split at hne
    · rename_i hrunning
      obtain ⟨target, htarget, hprogram⟩ := hs.target
      obtain ⟨target', htarget', hsame⟩ := hretains.target _ _ htarget
      refine ⟨?_, Machine.isRunning_iff.mp hrunning, target', ?_, hsame.program.trans hprogram⟩
      · show (send t.machine).2.running = some ⟨t.seat, thread.target, thread.base, thread.group⟩
        rw [(hevolves _).seats.running, h.target, h.base, h.group]
        exact hs.running
      · show (send t.machine).2.target? thread.target = some target'
        rw [h.target]
        exact htarget'
    · exact absurd rfl hne
  simp only [execEvent, bind_apply, ask_apply]
  split
  · exact hseated _ ⟨rfl, rfl, rfl⟩
  · exact hseated _ (.refl _)

variable [Host H]

/-- **What leaves a thread its seat does little**: small acts of work, and changes of the thread that
    leave it the same thread. -/
theorem keeps_exec {R : Turn H → Turn H → Prop} (hrefl : ∀ t, R t t)
    (htrans : ∀ a b c, R a b → R b c → R a c) {d : Prop}
    (hmoving : ∀ (α : Type) (x : Act H α), Moving True True d α x → Keeps R x)
    (hthread : ∀ (t : Turn H) (thread : Thread), Thread.Same t.thread thread →
      R t { t with thread }) {s : Stmt} (hs : s.mayUnseat = false) (hd : s.disturbs = true → d) :
    Keeps R (exec (H := H) s) := by
  have hmade {α : Type} {x : Act H α} (h : Made (Moving True True d) α x) : Keeps R x :=
    h.keeps hrefl htrans hmoving
  have hsense {α : Type} {x : Act H α} (h : Made (Sensing True) α x) : Keeps R x :=
    hmade h.working.moving
  have hpure {α : Type} (a : α) : Keeps R (pure a : Act H α) := hrefl
  have hplain {s : Stmt} (h : s.isPlain = true) (hd : s.disturbs = true → d) :
      Keeps R (exec (H := H) s) := by
    obtain ⟨x, hx, he⟩ := made_exec (H := H) (r := True) (w := True) h (fun e _ => e.frees_true)
      (.inr ⟨trivial, trivial⟩) hd
    rw [he]
    exact .bind htrans (hmade hx.moving) fun _ => hpure _
  cases s with
  | broadcast | switchBackdrop | deleteClone | stopAll => cases hs
  | label | forceQueue | «return» | forever => exact hpure _
  | queue l => exact .bind htrans (fun t => hrefl t) fun _ => hpure _
  | save =>
    refine .bind htrans (fun t => ?_) fun _ => hpure _
    exact hthread t _ (t.thread.same_withSaveStack _)
  | restore =>
    intro t
    unfold after
    rw [exec_restore]
    cases h : t.thread.restore? with
    | none => exact hrefl t
    | some thread => exact hthread t _ (Thread.same_restore? h)
  | endCall =>
    intro t
    unfold after
    rw [exec_endCall]
    cases h : t.thread.endCall? with
    | none => exact hrefl t
    | some back => exact hthread t _ (Thread.same_endCall? h)
  | call p args resume =>
    refine .bind htrans (fun t => hrefl t) fun t => ?_
    split
    · exact fun t => hrefl t
    · refine .bind htrans (hsense (made_evalAll fun e _ => e.frees_true)) fun _ =>
        .bind htrans (fun t => hrefl t) fun _ => .bind htrans (fun t => ?_) fun _ => hpure _
      exact hthread t _ ⟨rfl, rfl, rfl⟩
  | branch cond yes no =>
    exact .bind htrans (hsense (made_evalBool cond.frees_true)) fun _ => hpure _
  | «repeat» times body =>
    refine .bind htrans (hsense (made_evalNumber times.frees_true)) fun _ => ?_
    split <;> exact hpure _
  | «while» cond body =>
    refine .bind htrans (hsense (made_evalBool cond.frees_true)) fun _ => ?_
    split <;> exact hpure _
  | motion op =>
    have hmoves : Made (Moving True True d) Unit (execMotion (H := H) op) :=
      made_execMotion op (fun e _ => e.frees_true) fun _ => trivial
    exact .bind htrans (hmade hmoves) fun _ => hpure _
  | setRegister | setVariable | changeVariable | list | looks | sound | pen | ask
  | collectAnswer | resetTimer | createClone | stopOthers => exact hplain rfl hd

/-- **Only a few statements can cost a thread its seat.** -/
theorem exec_advances {s : Stmt} (hs : s.mayUnseat = false) :
    Keeps (Advances I) (exec (H := H) s) :=
  keeps_exec .refl .trans (fun _ _ => advances_moving) (fun _ _ => advances_thread) hs
    fun _ => trivial

/-- **What a statement does to the seats**: they evolve, and the thread has its own still, unless
    it is told that it has lost it. -/
theorem exec_orderly (s : Stmt) {t : Turn H} (hm : t.machine.Sound I) (hs : Seated t) :
    Orderly I t (exec s t) := by
  by_cases hunseat : s.mayUnseat = true
  case neg => exact (exec_advances (Bool.eq_false_iff.mpr hunseat)).orderly hm hs
  cases s with
  | broadcast message wait =>
    exact .bind (made_evalText message.frees_true).advances_sensing hm hs fun _ _ =>
      orderly_execEvent wait (fun m => m.continues_trigger _) fun m => m.evolves_trigger _
  | switchBackdrop backdrop wait =>
    exact .bind (made_eval backdrop.frees_true).advances_sensing hm hs fun _ _ hm hs =>
      .bind (advances_working (r := True) (w := True) (d := False) .touchScreen) hm hs fun _ _ =>
        orderly_execEvent wait (fun m => m.continues_switchBackdrop _)
          fun m => m.evolves_switchBackdrop _
  | deleteClone =>
    have hpasses : Passes I t { t with machine := (t.machine.deleteClone t.thread.target).2 } :=
      ⟨Machine.sound_deleteClone hm _, t.machine.evolves_deleteClone _,
        Machine.lasts_of_left fun _ _ => Machine.left_deleteClone, .refl _, rfl, rfl⟩
    simp only [exec, bind_apply, thread_apply, ask_apply]
    cases hdelete : (t.machine.deleteClone t.thread.target).1 with
    | true =>
      rw [if_pos rfl]
      exact ⟨hpasses, fun hne => absurd rfl hne⟩
    | false =>
      rw [if_neg Bool.false_ne_true]
      refine ⟨hpasses, fun _ => ?_⟩
      rw [Machine.deleteClone_false hdelete]
      exact hs
  | stopAll =>
    simp only [exec, bind_apply, modifyMachine_apply, ifSeated_apply, Machine.isRunning_stopAll]
    rw [if_neg Bool.false_ne_true]
    exact ⟨⟨Machine.sound_stopAll hm, t.machine.evolves_stopAll,
      Machine.lasts_of_left fun _ _ => Machine.left_stopAll, .refl _, rfl, rfl⟩,
      fun hne => absurd rfl hne⟩
  | _ => cases hunseat

end Act

end BlockScript
