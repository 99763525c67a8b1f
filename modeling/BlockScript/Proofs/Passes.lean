import BlockScript.Proofs.Successions
import BlockScript.Proofs.Visits

/-!
# Turns of one thread in a pass

A pass visits each seat once. So a thread that has gone back to its seat in the middle of a pass has
no other turn until a new pass begins.

* `World.BeginsPass`: from a state to the next a pass begins;
* `World.Orderly`: the seats that a pass has left to visit are different ones;
* `World.Step.waiting_back`: whoever waits in a seat waited there before, or has just come back;
* `Sighting.HasGone`: a thread has had its turn in the pass at hand;
* `Sighting.hasGone_step`: so it is until a new pass begins.
-/

namespace BlockScript

/-! ## 1. The seats of a pass -/

/-- Whoever waits in a seat after a turn waited there before, or it is the seat of the turn. -/
theorem Machine.getElem?_of_settle {H : Type} {m : Machine H} {i j : Nat} {s : Seat} {t : Thread}
    (h : (m.settle j s).queue[i]? = some (.waiting t)) :
    m.queue[i]? = some (.waiting t) ∨ i = j ∧ s = .waiting t := by
  by_cases hij : i = j
  · subst hij
    cases hrunning : m.isRunning i with
    | false =>
      unfold Machine.settle at h
      dsimp only at h
      rw [hrunning, if_neg Bool.false_ne_true] at h
      exact .inl h
    | true =>
      rw [Machine.getElem?_settle_self s (Machine.isRunning_iff.mp hrunning)] at h
      exact .inr ⟨rfl, Option.some.inj h⟩
  · rw [Machine.getElem?_settle_ne s hij] at h
    exact .inl h

namespace World

variable {H : Type}

/-- The seats that are still to be visited. -/
def seats : World H → List Nat
  | .rest _ => []
  | .pass _ _ seats => seats
  | .turn _ _ _ _ seats => seats

/-- From the one state to the other a pass begins: the first one of a frame, or another. -/
inductive BeginsPass : World H → World H → Prop
  | start (m : Machine H) :
      BeginsPass (.rest m)
        (.pass { m with visual := false } m.queue.length (List.range m.queue.length))
  | again (m : Machine H) (length : Nat) :
      BeginsPass (.pass m length [])
        (.pass { m.endPass with visual := false } m.endPass.queue.length
          (List.range m.endPass.queue.length))

/-- The seats that are still to be visited are different ones, and not that of the thread at
    work. -/
def Orderly : World H → Prop
  | .rest _ => True
  | .pass _ _ seats => seats.Nodup
  | .turn t _ _ _ seats => t.seat ∉ seats ∧ seats.Nodup

variable [Host H] {R : Rules} {D : Discipline R} {w w' : World H}

/-- **Each seat is visited once in a pass.** -/
theorem Step.orderly (h : Step R w w') (hw : w.Orderly) : w'.Orderly := by
  have hseat {s : Stmt} {t t' : Turn H} {c : Control} (hexec : Act.exec s t = .ok c t') :
      t'.seat = t.seat := ((Act.exec_alters s).of_ok hexec).seat
  cases h with
  | request | setClock | lapse | refuse | fail | close => trivial
  | start | again => exact List.nodup_range
  | skip => exact (List.nodup_cons.mp hw).2
  | enter => exact List.nodup_cons.mp hw
  | onward hexec | jump hexec =>
    refine ⟨?_, hw.2⟩
    rw [hseat hexec]
    exact hw.1
  | leave | finish => exact hw.2

theorem Reaches.orderly (h : Reaches R w w') (hw : w.Orderly) : w'.Orderly := by
  induction h with
  | refl => exact hw
  | tail _ hstep ih => exact hstep.orderly ih

theorem Arises.orderly {m : Machine H} (h : Arises m w) : w.Orderly := Reaches.orderly h trivial

/-- **Whoever waits in a seat in the middle of a pass waited there before**, or has just come back
    to it, or is of an event since. -/
theorem Step.waiting_back (h : Step R w w') (hw : w.Sound D) {i : Nat} {t : Thread}
    (hi : w'.machine.queue[i]? = some (.waiting t)) (hgroup : t.group ≤ w.machine.lastGroup) :
    BeginsPass w w' ∨ w'.seats = [] ∨ w'.seats ⊆ w.seats ∧
      (w.machine.queue[i]? = some (.waiting t) ∨
        ∃ u, w.turn? = some u ∧ i = u.seat ∧ t.script = u.thread.script) := by
  -- whoever waits after a statement waited before it
  have hback {s : Stmt} {u u' : Turn H} {c : Control} {l : Label} {code : List Stmt} {length : Nat}
      {seats : List Nat} (heq : w = .turn u l code length seats) (hexec : Act.exec s u = .ok c u')
      (hi : u'.machine.queue[i]? = some (.waiting t)) :
      w.machine.queue[i]? = some (.waiting t) := by
    subst heq
    obtain ⟨⟨hm, -⟩, ⟨hs, -⟩, -⟩ := hw
    obtain ⟨hp, -⟩ := passes_of_exec hexec hm hs
    refine (hp.evolves.seats.waiting i t hi).resolve_right fun hnew => ?_
    exact absurd hgroup (Nat.not_le.mpr hnew.1)
  cases h with
  | start m => exact .inl (.start m)
  | again => exact .inl (.again _ _)
  | request | setClock | lapse | refuse | fail | close => exact .inr (.inl rfl)
  | skip => exact .inr (.inr ⟨List.subset_cons_self _ _, .inl hi⟩)
  | @enter m j t₀ target code hready htarget hcode length seats =>
    refine .inr (.inr ⟨List.subset_cons_self _ _, .inl ?_⟩)
    by_cases heq : i = j
    · subst heq
      rw [show (World.turn _ _ _ _ _).machine = m.lend i t₀ from rfl,
        Machine.getElem?_lend hready] at hi
      cases hi
    · exact (Machine.getElem?_lend_ne t₀ heq).symm.trans hi
  | onward hexec => exact .inr (.inr ⟨List.Subset.refl _, .inl (hback rfl hexec hi)⟩)
  | jump hexec => exact .inr (.inr ⟨List.Subset.refl _, .inl (hback rfl hexec hi)⟩)
  | @leave s u u' e seat hexec he =>
    refine .inr (.inr ⟨List.Subset.refl _, ?_⟩)
    rcases Machine.getElem?_of_settle hi with hi | ⟨hseat, hback'⟩
    · exact .inl (hback rfl hexec hi)
    · -- the thread at work goes back to its seat
      have hsame := (Act.exec_alters s).of_ok hexec
      refine .inr ⟨u, rfl, hseat.trans hsame.seat, ?_⟩
      cases e with
      | jump => cases he
      | stop | detached =>
        cases he
        cases hback'
      | yield k =>
        cases he
        cases hback'
        exact hsame.thread.script
  | finish u =>
    refine .inr (.inr ⟨List.Subset.refl _, .inl ?_⟩)
    rcases Machine.getElem?_of_settle hi with hi | ⟨-, hback'⟩
    · exact hi
    · cases hback'

end World

/-! ## 2. A thread that has had its turn -/

namespace Sighting

variable {H : Type}

/-- The thread is in its seat, which the pass at hand does not visit any more. -/
def HasGone (a : Sighting H) : Prop :=
  ∃ t, a.spot = .seat t ∧ ∀ i, a.world.machine.queue[i]? = some (.waiting t) → i ∉ a.world.seats

variable {R : Rules} {D : Discipline R} {a b : Sighting H}

/-- A thread that waits in a state is the one that the state is looked at for, if they are the
    same. -/
theorem spot_eq_of_waiting (ha : a.world.Sound D) {i : Nat} {t : Thread}
    (hi : a.world.machine.queue[i]? = some (.waiting t)) (h : t.script = a.spot.thread.script) :
    a.spot = .seat t := by
  have hmem := List.mem_of_getElem? hi
  obtain ⟨target, htarget, -⟩ := ha.machine.1.thread t hmem
  exact (a.sees.unique ha (.seat ⟨hmem, target, htarget, rfl⟩) h).2.symm

/-- So it is with the thread at work. -/
theorem spot_eq_of_turn (ha : a.world.Sound D) {u : Turn H} (hu : a.world.turn? = some u)
    (h : u.thread.script = a.spot.thread.script) : ∃ l code, a.spot = .work u.thread l code := by
  obtain ⟨w, p, x, hx⟩ := a
  cases w with
  | rest | pass => cases hu
  | turn u' l code length seats =>
    cases hu
    exact ⟨l, code, (hx.unique ha (.work u l code length seats) h).2.symm⟩

variable [Host H]

/-- A thread that is in its seat after a step is of the same script and event as before. -/
theorem Step.seat {t : Thread} (h : Step R a b) (ha : a.world.Sound D) (hb : b.spot = .seat t) :
    t.script = a.spot.thread.script ∧ t.group ≤ a.world.machine.lastGroup := by
  have hscript := h.2.script
  have hgroup := h.2.group
  rw [hb] at hscript hgroup
  exact ⟨hscript, hgroup ▸ a.sees.issued ha⟩

/-- **A thread that has had its turn has no other one until a new pass begins.** -/
theorem hasGone_step (ha : a.world.Sound D) (hgone : a.HasGone) (h : Step R a b) :
    b.HasGone ∨ World.BeginsPass a.world b.world := by
  obtain ⟨t, hspot, hvisited⟩ := hgone
  have hidle {u : Turn H} (hu : a.world.turn? = some u) :
      u.thread.script ≠ a.spot.thread.script := by
    intro hscript
    obtain ⟨l, code, hwork⟩ := spot_eq_of_turn ha hu hscript
    rw [hspot] at hwork
    cases hwork
  cases hb : b.spot with
  | seat t' =>
    by_cases hbegins : World.BeginsPass a.world b.world
    · exact .inr hbegins
    obtain ⟨hscript, hgroup⟩ := h.seat ha hb
    refine .inl ⟨t', hb, fun i hi => ?_⟩
    rcases (h.1.waiting_back ha hi hgroup).resolve_left hbegins with
      hnone | ⟨hsubset, hold | ⟨u, hu, -, hown⟩⟩
    · rw [hnone]
      exact List.not_mem_nil
    · have heq := spot_eq_of_waiting ha hold hscript
      rw [hspot] at heq
      cases heq
      exact fun hmem => hvisited i hold (hsubset hmem)
    · exact absurd (hown.symm.trans hscript) (hidle hu)
  | work t' l code =>
    have hscript : b.spot.thread.script = a.spot.thread.script := h.2.script
    obtain ⟨w', p', y, hy⟩ := b
    obtain ⟨hstep, -⟩ := h
    dsimp only at hb hstep hscript
    subst hb
    cases hy with
    | work u' =>
      generalize hw : a.world = w at hstep
      cases hstep with
      | @enter m i t' target code hready htarget hcode length seats =>
        have hi : a.world.machine.queue[i]? = some (.waiting t') := by
          rw [hw]
          exact Machine.getElem?_of_ready? hready
        have heq := spot_eq_of_waiting ha hi hscript
        rw [hspot] at heq
        cases heq
        have hmem := hvisited i hi
        rw [hw] at hmem
        exact absurd List.mem_cons_self hmem
      | onward hexec | jump hexec =>
        have hsame := ((Act.exec_alters _).of_ok hexec).thread.script
        exact absurd (hsame.symm.trans hscript) (hidle (hw ▸ rfl))

/-- **A thread that goes back to its seat has had its turn.** -/
theorem hasGone_of_seat (ha : a.world.Sound D) (horderly : a.world.Orderly) {t t' : Thread}
    {l : Label} {code : List Stmt} (hspot : a.spot = .work t l code) (hb : b.spot = .seat t')
    (h : Step R a b) : b.HasGone := by
  obtain ⟨hscript, hgroup⟩ := h.seat ha hb
  refine ⟨t', hb, fun i hi => ?_⟩
  rcases h.1.waiting_back ha hi hgroup with hbegins | hnone | ⟨hsubset, hold | ⟨u, hu, rfl, -⟩⟩
  · obtain ⟨w, p, x, hx⟩ := a
    dsimp only at hspot hbegins
    subst hspot
    cases hx
    cases hbegins
  · rw [hnone]
    exact List.not_mem_nil
  · have heq := spot_eq_of_waiting ha hold hscript
    rw [hspot] at heq
    cases heq
  · refine fun hmem => ?_
    generalize a.world = w at hu hsubset horderly
    cases w with
    | rest | pass => cases hu
    | turn =>
      cases hu
      exact horderly.1 (hsubset hmem)

end Sighting

end BlockScript
