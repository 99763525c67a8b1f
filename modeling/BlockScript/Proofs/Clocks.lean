import BlockScript.Proofs.Changes
import BlockScript.Proofs.Loops
import BlockScript.Proofs.Spots
import Mathlib

/-!
# Time in a run

A clock is asked while threads are at work, and moves when a frame ends. So in every run the clock
is the one of before, as many frames later, and perhaps asked in between. A fixed clock tells the
same time until then.

* `Clock.Asked`: the same clock, asked some more times;
* `Act.exec_sameTime`: a statement asks the clock and does nothing else to it;
* `World.Step.time`, `World.Reaches.time`: the clock of a run is the one of before, moved once for
  each frame that has ended;
* `Number.sub_self`: between two readings of the same time no time passes.
-/

namespace BlockScript

/-! ## 1. Clocks -/

namespace Clock

/-- The same clock, perhaps asked in between. -/
inductive Asked : Clock → Clock → Prop
  | fixed (now step : Float) : Asked (.fixed now step) (.fixed now step)
  | wall (readings : Nat → Float) {i j : Nat} (h : i ≤ j) :
      Asked (.wall readings i) (.wall readings j)

variable {a b c : Clock} {now step : Float}

theorem Asked.refl : (c : Clock) → Asked c c
  | .fixed now step => .fixed now step
  | .wall readings _ => .wall readings (Nat.le_refl _)

theorem Asked.trans (h : Asked a b) (h' : Asked b c) : Asked a c := by
  cases h with
  | fixed => exact h'
  | wall readings hij =>
    cases h' with
    | wall _ hjk => exact .wall readings (Nat.le_trans hij hjk)

theorem asked_read : (c : Clock) → Asked c c.read.2
  | .fixed now step => .fixed now step
  | .wall readings i => .wall readings (Nat.le_succ i)

/-- The end of a frame does not tell the readings apart. -/
theorem Asked.advance (h : Asked a b) : Asked a.advance b.advance := by
  cases h with
  | fixed => exact .refl _
  | wall readings h => exact .wall readings h

theorem Asked.eq_fixed (h : Asked (.fixed now step) c) : c = .fixed now step := by
  cases h
  rfl

/-- A fixed clock after so many frames. -/
theorem advance_fixed (n : Nat) :
    Clock.advance^[n] (.fixed now step) = .fixed ((· + step)^[n] now) step := by
  induction n with
  | zero => rfl
  | succ n ih =>
    rw [Function.iterate_succ_apply', Function.iterate_succ_apply', ih]
    rfl

end Clock

namespace Number

open Float.Model (UnpackedFloat)

/-- **No time passes between two readings of the same time**, if it is finite. -/
theorem sub_self {x : Float} (h : x.isFinite = true) : x - x = 0.0 := by
  have hzero : UnpackedFloat.sub .binary64 x.toModel.unpack x.toModel.unpack = .zero .positive := by
    have hfinite : x.toModel.unpack.isFinite = true := h
    generalize x.toModel.unpack = u at hfinite ⊢
    cases u with
    | notANumber | infinity => cases hfinite
    | zero s => cases s <;> rfl
    | finite s m e hm =>
      simp only [UnpackedFloat.sub, Int.sub_self, UnpackedFloat.normalize]
      rfl
  have hsub : x - x = Float.ofModel (Float.Model.pack (.zero .positive)) := by
    rw [← hzero]
    rfl
  rw [hsub]
  decide +kernel

end Number

/-! ## 2. Statements -/

namespace Machine

variable {H : Type}

/-- No frame has ended, and the clock was asked at most. -/
structure SameTime (m m' : Machine H) : Prop where
  frame : m'.frame = m.frame
  clock : Clock.Asked m.clock m'.clock

namespace SameTime

theorem refl (m : Machine H) : m.SameTime m := ⟨rfl, .refl _⟩

theorem trans {a b c : Machine H} (h : a.SameTime b) (h' : b.SameTime c) : a.SameTime c :=
  ⟨h'.frame.trans h.frame, h.clock.trans h'.clock⟩

end SameTime

section

variable (m : Machine H)

theorem sameTime_resetTimer : m.SameTime m.resetTimer := ⟨rfl, m.clock.asked_read⟩

theorem sameTime_trigger (e : Event) : m.SameTime (m.trigger e).2 := by
  rw [trigger_eq]
  exact ⟨rfl, .refl _⟩

theorem sameTime_triggerFor (id : TargetId) (e : Event) : m.SameTime (m.triggerFor id e).2 := by
  rw [triggerFor_eq]
  exact ⟨rfl, .refl _⟩

theorem sameTime_createClone (of : TargetId) : m.SameTime (m.createClone of).2 := by
  unfold createClone
  split
  · exact .refl m
  · dsimp only
    split
    · exact .refl m
    · rw [triggerFor_eq]
      exact ⟨rfl, .refl _⟩

theorem sameTime_deleteClone (id : TargetId) : m.SameTime (m.deleteClone id).2 := by
  unfold deleteClone
  split
  · exact .refl m
  · split
    · exact .refl m
    · exact ⟨rfl, .refl _⟩

theorem sameTime_changeCostume (t : Target) (v : Value) :
    m.SameTime (m.changeCostume t v).2 := by
  obtain ⟨dice, pick, -, heq⟩ := m.changeCostume_eq t v
  rw [heq]
  exact ⟨rfl, .refl _⟩

variable [Host H]

theorem sameTime_stopAll : m.SameTime m.stopAll := ⟨rfl, .refl _⟩

theorem sameTime_announceCostume (id : TargetId) : m.SameTime (m.announceCostume id) := by
  unfold announceCostume
  split <;> exact ⟨rfl, .refl _⟩

theorem sameTime_switchBackdrop (v : Value) : m.SameTime (m.switchBackdrop v).2 := by
  unfold switchBackdrop
  split
  · exact sameTime_trigger _ _
  · have hcount (m : Machine H) (id : TargetId) : m.SameTime (m.mapTarget id Target.countSwitch) :=
      ⟨rfl, .refl _⟩
    exact (((sameTime_changeCostume m _ v).trans (hcount _ _)).trans
      (sameTime_announceCostume _ _)).trans (sameTime_trigger _ _)

end

end Machine

namespace Act

variable {H α : Type}

/-- No frame has ended, and the clock was asked at most. -/
def SameTime (t t' : Turn H) : Prop := t.machine.SameTime t'.machine

theorem SameTime.refl (t : Turn H) : SameTime t t := Machine.SameTime.refl _

theorem SameTime.trans (a b c : Turn H) (h : SameTime a b) (h' : SameTime b c) : SameTime a c :=
  Machine.SameTime.trans h h'

/-- What leaves the machine alone leaves the time alone. -/
theorem sameTime_of_machine {x : Act H α} (h : ∀ t, (x.after t).machine = t.machine) :
    Keeps SameTime x := by
  intro t
  unfold SameTime
  rw [h t]
  exact .refl _

theorem sameTime_pure (a : α) : Keeps SameTime (pure a : Act H α) := fun t => .refl t

theorem sameTime_sensing {r : Prop} {x : Act H α} (h : Sensing r α x) : Keeps SameTime x :=
  keeps_sensing .refl (fun _ _ _ _ => ⟨rfl, .refl _⟩) (fun t => ⟨rfl, t.machine.clock.asked_read⟩)
    (fun t _ _ => .refl t) h

theorem sameTime_modifyCurrent (f : Target → Target) :
    Keeps SameTime (modifyCurrent (H := H) f) :=
  .bind .trans (.of_after .refl after_current) fun _ _ => ⟨rfl, .refl _⟩

theorem sameTime_modifyMachine {f : Machine H → Machine H}
    (h : ∀ m : Machine H, m.SameTime (f m)) : Keeps SameTime (modifyMachine f) := fun t =>
  h t.machine

theorem sameTime_ask {f : Machine H → α × Machine H} (h : ∀ m : Machine H, m.SameTime (f m).2) :
    Keeps SameTime (ask f) := fun t => h t.machine

theorem sameTime_ifSeated : Keeps SameTime (ifSeated (H := H)) :=
  .of_after .refl fun t => by
    unfold after
    rw [ifSeated_apply]

theorem sameTime_execEvent (wait : Bool) {send : Machine H → GroupId × Machine H}
    (h : ∀ m : Machine H, m.SameTime (send m).2) : Keeps SameTime (execEvent wait send) := by
  refine .bind .trans (sameTime_ask h) fun g => ?_
  split
  · exact .bind .trans (sameTime_of_machine fun _ => rfl) fun _ => sameTime_ifSeated
  · exact sameTime_ifSeated

variable [Host H]

theorem sameTime_working {r w d : Prop} {x : Act H α} (h : Working r w d α x) :
    Keeps SameTime x := by
  cases h with
  | sensing h => exact sameTime_sensing h
  | modifyCurrent f => exact sameTime_modifyCurrent f
  | modifyOwner storage f =>
    exact .bind .trans (.of_after .refl (after_owner storage)) fun _ _ => ⟨rfl, .refl _⟩
  | wearCostume v =>
    refine .bind .trans (.of_after .refl after_current) fun target =>
      .bind .trans (sameTime_ask fun m => m.sameTime_changeCostume target v) fun changed => ?_
    split
    · exact sameTime_modifyMachine fun m => m.sameTime_announceCostume target.id
    · exact sameTime_pure _
  | announce id => exact sameTime_modifyMachine fun m => m.sameTime_announceCostume id
  | resetTimer => exact sameTime_modifyMachine fun m => m.sameTime_resetTimer
  | createClone id => exact sameTime_ask fun m => m.sameTime_createClone id
  | tellHost | touchScreen | answer | registers | stopOthers => exact fun t => ⟨rfl, .refl _⟩

/-- Whatever is made of small acts of work. -/
theorem Made.sameTime {r w d : Prop} {x : Act H α} (h : Made (Moving r w d) α x) :
    Keeps SameTime x := by
  refine h.keeps .refl .trans fun _ _ hx => ?_
  cases hx with
  | working hx => exact sameTime_working hx
  | modifySprite f =>
    exact .bind .trans (.of_after .refl after_sprite) fun _ => sameTime_modifyCurrent _

theorem Made.sameTime_sensing {r : Prop} {x : Act H α} (h : Made (Sensing r) α x) :
    Keeps SameTime x :=
  (h.working (w := True) (d := False)).moving.sameTime

/-- **No frame ends in the middle of a statement**, and the clock is asked at most. -/
theorem exec_sameTime (s : Stmt) : Keeps SameTime (exec (H := H) s) := by
  cases s with
  | broadcast message wait =>
    exact .bind .trans (made_evalText message.frees_true).sameTime_sensing fun _ =>
      sameTime_execEvent wait fun m => m.sameTime_trigger _
  | switchBackdrop backdrop wait =>
    exact .bind .trans (made_eval backdrop.frees_true).sameTime_sensing fun _ =>
      .bind .trans (sameTime_working (r := True) (w := True) (d := True) .touchScreen) fun _ =>
        sameTime_execEvent wait fun m => m.sameTime_switchBackdrop _
  | deleteClone =>
    refine .bind .trans (.of_after .refl fun _ => rfl) fun _ =>
      .bind .trans (sameTime_ask fun m => m.sameTime_deleteClone _) fun _ => ?_
    split <;> exact sameTime_pure _
  | stopAll =>
    exact .bind .trans (sameTime_modifyMachine fun m => m.sameTime_stopAll) fun _ =>
      sameTime_ifSeated
  | _ =>
    exact keeps_exec .refl .trans (fun _ _ h => (Made.prim h).sameTime) (fun t _ _ => .refl t) rfl
      fun _ => trivial

end Act

/-! ## 3. Runs -/

/-- What is asked for between two frames asks the clock at most. -/
theorem Request.sameTime {H : Type} [Host H] {r : Request H} {f : Machine H → Machine H}
    (h : r.change? = some f) (m : Machine H) : m.SameTime (f m) := by
  cases r <;> cases h
  case greenFlag.refl =>
    exact (m.sameTime_stopAll.trans m.stopAll.sameTime_resetTimer).trans
      (Machine.sameTime_trigger _ _)
  case trigger.refl e => exact m.sameTime_trigger e
  case triggerFor.refl id e => exact m.sameTime_triggerFor id e
  case switchBackdrop.refl v => exact m.sameTime_switchBackdrop v
  case createClone.refl of => exact m.sameTime_createClone of
  case deleteClone.refl id => exact m.sameTime_deleteClone id
  case stopAll.refl => exact m.sameTime_stopAll
  case resetTimer.refl => exact m.sameTime_resetTimer
  case stopTarget.refl | halt.refl | attend.refl => exact ⟨rfl, .refl _⟩

namespace World

variable {H : Type} [Host H] {R : Rules} {w w' : World H}

/-- **A step of a run ends a frame, or it is done at the same time**, if the clock stays the same. -/
theorem Step.time (hR : ¬ R.clocks) (h : Step R w w') : w.machine.SameTime w'.machine ∨
    (w'.machine.frame = w.machine.frame + 1 ∧ w'.machine.clock = w.machine.clock.advance) := by
  have hsettle {t t' : Turn H} (h : Act.SameTime t t') (seat : Nat) (s : Seat) :
      t.machine.SameTime (t'.machine.settle seat s) :=
    Machine.SameTime.trans h ⟨rfl, .refl _⟩
  cases h with
  | lapse | close => exact .inr ⟨rfl, rfl⟩
  | request hr m => exact .inl (Request.sameTime hr m)
  | setClock h => exact absurd h hR
  | onward hexec | jump hexec => exact .inl ((Act.exec_sameTime _).of_ok hexec)
  | leave hexec => exact .inl (hsettle ((Act.exec_sameTime _).of_ok hexec) _ _)
  | fail hfails =>
    refine .inl (hsettle ?_ _ _)
    cases hfails with
    | fault hexec => exact (Act.exec_sameTime _).of_error hexec
    | stray hexec => exact (Act.exec_sameTime _).of_ok hexec
    | exhausted => exact .refl _
  | start | skip | enter | refuse | finish | again => exact .inl ⟨rfl, .refl _⟩

/-- **In every run that keeps the clock it is the one of before**, moved once for each frame that
    has ended, and asked in between. -/
theorem Reaches.time (hR : ¬ R.clocks) (h : Reaches R w w') :
    ∃ n, w'.machine.frame = w.machine.frame + n ∧
      Clock.Asked (Clock.advance^[n] w.machine.clock) w'.machine.clock := by
  induction h with
  | refl => exact ⟨0, rfl, .refl _⟩
  | tail _ hstep ih =>
    obtain ⟨n, hframe, hclock⟩ := ih
    rcases hstep.time hR with hsame | ⟨hnext, hadvance⟩
    · exact ⟨n, hsame.frame.trans hframe, hclock.trans hsame.clock⟩
    · refine ⟨n + 1, ?_, ?_⟩
      · rw [hnext, hframe, Nat.add_assoc]
      · rw [hadvance, Function.iterate_succ_apply']
        exact hclock.advance

variable {now step : Float}

/-- A fixed clock stays one. -/
theorem Reaches.fixed (hR : ¬ R.clocks) (h : Reaches R w w')
    (hw : w.machine.clock = .fixed now step) :
    ∃ n, w'.machine.frame = w.machine.frame + n ∧
      w'.machine.clock = .fixed ((· + step)^[n] now) step := by
  obtain ⟨n, hframe, hclock⟩ := h.time hR
  rw [hw, Clock.advance_fixed] at hclock
  exact ⟨n, hframe, hclock.eq_fixed⟩

end World

end BlockScript
