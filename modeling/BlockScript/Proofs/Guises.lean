import BlockScript.Proofs.Resumption

/-!
# Threads in other registers

A statement that does without registers does the same whatever the thread has in them, and whatever
copies of them it saved: the same happens to the machine, and the thread goes on in the same way.

* `Thread.dress`, `Turn.dress`: the same with other registers and other copies;
* `Act.Unaware`: an act that takes no notice of the registers;
* `Act.Made.unaware`: what is made of small acts that do without registers is such an act;
* `Act.unaware_exec`: so is each calm statement (`Stmt.Calm`), unless it ends a procedure.
-/

namespace BlockScript

/-! ## 1. Other registers -/

/-- The thread with other registers, and with other copies of them. -/
def Thread.dress (t : Thread) (rs : Registers) (saved : List Registers) : Thread :=
  { t.withSaveStack saved with registers := rs }

namespace Thread

variable (t : Thread) (rs rs' : Registers) (saved saved' : List Registers)

@[simp] theorem registers_dress : (t.dress rs saved).registers = rs := rfl

@[simp] theorem saveStack_dress : (t.dress rs saved).saveStack = saved := by
  unfold dress withSaveStack saveStack
  cases t.calls <;> rfl

@[simp] theorem target_dress : (t.dress rs saved).target = t.target := by
  unfold dress withSaveStack
  cases t.calls <;> rfl

@[simp] theorem warp_dress : (t.dress rs saved).warp = t.warp := by
  unfold dress withSaveStack
  cases t.calls <;> rfl

@[simp] theorem dress_dress : (t.dress rs saved).dress rs' saved' = t.dress rs' saved' := by
  unfold dress withSaveStack
  cases t.calls <;> rfl

@[simp] theorem dress_self : t.dress t.registers t.saveStack = t := by
  obtain ⟨_, _, _, calls, _, _, _, _, _, _⟩ := t
  cases calls <;> rfl

theorem bare_dress : (t.dress rs saved).bare = t.bare := t.dress_dress rs {} saved []

theorem save_eq_dress : t.save = t.dress t.registers (t.registers :: t.saveStack) := by
  unfold save dress withSaveStack
  cases t.calls <;> rfl

theorem restore?_dress : (t.dress rs (rs' :: saved)).restore? = some (t.dress rs' saved) := by
  unfold restore? dress withSaveStack saveStack
  cases t.calls <;> rfl

/-- The end of a procedure leaves nothing of its registers. -/
theorem endCall?_dress {t : Thread} (h : t.calls ≠ []) :
    (t.dress rs saved).endCall? = t.endCall? := by
  unfold endCall? dress withSaveStack
  cases hcalls : t.calls with
  | nil => exact absurd hcalls h
  | cons c rest => rfl

end Thread

variable {H : Type}

/-- The turn with other registers, and with other copies of them. -/
def Turn.dress (t : Turn H) (rs : Registers) (saved : List Registers) : Turn H :=
  { t with thread := t.thread.dress rs saved }

namespace Act

/-- The same after an act, well or not. -/
def dressed {α : Type} (rs : Registers) (saved : List Registers) : Result H α → Result H α
  | .ok a t => .ok a (t.dress rs saved)
  | .error e t => .error e (t.dress rs saved)

/-- The act takes no notice of the registers, as long as no request is waited for. -/
structure Unaware {α : Type} (x : Act H α) : Prop where
  apply_dress : ∀ t : Turn H, t.thread.registers.ticket = none → ∀ rs saved, rs.ticket = none →
    x (t.dress rs saved) = dressed rs saved (x t)
  quiet : Keeps Quiet x

namespace Unaware

variable {α β : Type}

theorem pure (a : α) : Unaware (Pure.pure a : Act H α) := ⟨fun _ _ _ _ _ => rfl, fun _ _ => rfl⟩

theorem bind {x : Act H α} {f : α → Act H β} (hx : Unaware x) (hf : ∀ a, Unaware (f a)) :
    Unaware (x >>= f) := by
  refine ⟨fun t ht rs saved hrs => ?_, .bind Quiet.trans hx.quiet fun a => (hf a).quiet⟩
  rw [bind_apply, bind_apply, hx.apply_dress t ht rs saved hrs]
  cases hres : x t with
  | error e t' => rfl
  | ok a t' =>
    have hsame : t'.thread.registers = t.thread.registers := hx.quiet.of_ok hres ht
    exact (hf a).apply_dress t' (hsame ▸ ht) rs saved hrs

theorem fail (e : RuntimeError) : Unaware (Act.fail e : Act H α) :=
  ⟨fun _ _ _ _ _ => rfl, fun _ _ => rfl⟩

/-- An act on the machine, which asks no more of the turn than the target and the seat. -/
theorem of_machine {x : Act H α} (f : TargetId → Nat → Machine H → α × Machine H)
    (hx : ∀ t, x t = .ok (f t.thread.target t.seat t.machine).1
      { t with machine := (f t.thread.target t.seat t.machine).2 }) : Unaware x := by
  refine ⟨fun t _ rs saved _ => ?_, fun t _ => ?_⟩
  · have htarget : (t.dress rs saved).thread.target = t.thread.target :=
      t.thread.target_dress rs saved
    rw [hx, hx, htarget]
    rfl
  · unfold after
    rw [hx]

theorem ask (f : Machine H → α × Machine H) : Unaware (Act.ask f) :=
  of_machine (fun _ _ m => f m) fun _ => rfl

theorem modifyMachine (f : Machine H → Machine H) : Unaware (Act.modifyMachine f) :=
  of_machine (fun _ _ m => ((), f m)) fun _ => rfl

theorem machine : Unaware (Act.machine (H := H)) := of_machine (fun _ _ m => (m, m)) fun _ => rfl

theorem ifSeated : Unaware (Act.ifSeated (H := H)) :=
  of_machine (fun _ seat m => (if m.isRunning seat then .onward [] else .leave .detached, m))
    ifSeated_apply

/-- What is asked of the thread does not depend on the registers. -/
theorem look {x : Act H α} (f : Thread → α) (hf : ∀ t, f t.bare = f t)
    (hx : ∀ t, x t = .ok (f t.thread) t) : Unaware x := by
  refine ⟨fun t _ rs saved _ => ?_, fun t _ => ?_⟩
  · have hthread : f (t.thread.dress rs saved) = f t.thread := by
      rw [← hf, Thread.bare_dress, hf]
    rw [hx, hx]
    exact congrArg (EStateM.Result.ok · (t.dress rs saved)) hthread
  · unfold after
    rw [hx]

theorem current : Unaware (Act.current (H := H)) := by
  refine ⟨fun t _ rs saved _ => ?_, fun t => (sameRegisters_sensing (r := False) .current t).quiet⟩
  have htarget : (t.dress rs saved).thread.target = t.thread.target :=
    t.thread.target_dress rs saved
  have hmachine : (t.dress rs saved).machine = t.machine := rfl
  rw [current_apply, current_apply, htarget, hmachine]
  cases t.machine.target? t.thread.target <;> rfl

theorem owner (s : Storage) : Unaware (Act.owner (H := H) s) := by
  unfold Act.owner
  split
  · exact current
  · refine .bind machine fun m => ?_
    split
    · exact .pure _
    · exact .fail _

theorem sprite : Unaware (Act.sprite (H := H)) := by
  refine .bind current fun t => ?_
  split
  · exact .pure _
  · exact .fail _

theorem modifyCurrent (f : Target → Target) : Unaware (Act.modifyCurrent (H := H) f) :=
  .bind current fun _ => .modifyMachine _

end Unaware

theorem numberArg_saved (c : Call) (saved : List Registers) (i : Nat) :
    Call.numberArg { c with saved } i =
      ((c.numberArg i).1, { (c.numberArg i).2 with saved }) := by
  unfold Call.numberArg
  dsimp only
  split <;> rfl

theorem boolArg_saved (c : Call) (saved : List Registers) (i : Nat) :
    Call.boolArg { c with saved } i = ((c.boolArg i).1, { (c.boolArg i).2 with saved }) := by
  unfold Call.boolArg
  dsimp only
  split <;> rfl

/-- Whether a conversion is known does not depend on the copies that were saved in the call. -/
theorem knownIn?_saved (slot : Slot) (e : Expr) (c : Call) (rest : List Call)
    (saved : List Registers) :
    (knownIn? slot e (c :: rest) = none ∧ knownIn? slot e ({ c with saved } :: rest) = none) ∨
      ∃ v c', knownIn? slot e (c :: rest) = some (v, c' :: rest) ∧
        knownIn? slot e ({ c with saved } :: rest) = some (v, { c' with saved } :: rest) := by
  cases slot with
  | number =>
    cases e with
    | argument i =>
      refine .inr ⟨_, _, rfl, ?_⟩
      simp only [knownIn?, numberArg_saved]
    | _ => exact .inl ⟨rfl, rfl⟩
  | boolean =>
    cases e with
    | argument i =>
      refine .inr ⟨_, _, rfl, ?_⟩
      simp only [knownIn?, boolArg_saved]
    | _ => exact .inl ⟨rfl, rfl⟩
  | _ => exact .inl ⟨rfl, rfl⟩

theorem Unaware.knownCast (slot : Slot) (e : Expr) :
    Unaware (Act.knownCast (H := H) slot e) := by
  refine ⟨fun t _ rs saved _ => ?_,
    fun t => (sameRegisters_sensing (r := False) (.knownCast slot e) t).quiet⟩
  rw [knownCast_apply, knownCast_apply]
  obtain ⟨machine, thread, seat, program⟩ := t
  obtain ⟨target, base, continuation, calls, registers, saved₀, warp, group, ready, active⟩ := thread
  cases calls with
  | nil =>
    have hnone : knownIn? slot e [] = none := by
      cases slot <;> cases e <;> rfl
    simp only [Turn.dress, Thread.dress, Thread.withSaveStack, hnone]
    rfl
  | cons c rest =>
    rcases knownIn?_saved slot e c rest saved with ⟨hnone, hnone'⟩ | ⟨v, c', hsome, hsome'⟩
    · simp only [Turn.dress, Thread.dress, Thread.withSaveStack, hnone, hnone']
      rfl
    · simp only [Turn.dress, Thread.dress, Thread.withSaveStack, hsome, hsome']
      rfl

theorem unaware_sensing {α : Type} {x : Act H α} (h : Sensing False α x) : Unaware x := by
  cases h with
  | current => exact .current
  | owner s => exact .owner s
  | machine => exact .machine
  | thread h => exact h.elim
  | look f hf hx => exact .look f hf hx
  | roll | now | timer | moment | askHost => exact .ask _
  | knownCast slot e => exact .knownCast slot e

variable [Host H]

theorem unaware_moving {α : Type} {x : Act H α} (h : Moving False False True α x) : Unaware x := by
  cases h with
  | modifySprite f => exact .bind .sprite fun _ => .modifyCurrent _
  | working h =>
    cases h with
    | sensing h => exact unaware_sensing h
    | modifyCurrent f => exact .modifyCurrent f
    | modifyOwner s f => exact .bind (.owner s) fun _ => .modifyMachine _
    | wearCostume v =>
      refine .bind .current fun t => .bind (.ask _) fun worn => ?_
      split
      · exact .modifyMachine _
      · exact .pure _
    | announce | tellHost | touchScreen | answer | resetTimer => exact .modifyMachine _
    | createClone => exact .ask _
    | stopOthers =>
      exact .of_machine (fun id seat m => ((), m.stopTarget id (some seat))) fun _ => rfl
    | registers f h =>
      have hf (rs : Registers) (hrs : rs.ticket = none) : f rs = rs := by
        rw [h.resolve_left id]
        exact Registers.forget_ticket hrs
      refine ⟨fun t ht rs saved hrs => ?_, fun t => blind_quiet.registers t f h⟩
      rw [modifyThread_apply, modifyThread_apply]
      have hkept : { t.thread with registers := f t.thread.registers } = t.thread := by
        rw [hf _ ht]
      have hdressed : { t.thread.dress rs saved with registers := f rs } =
          t.thread.dress rs saved := by
        rw [hf _ hrs]
        rfl
      rw [hkept]
      exact congrArg (fun thread => EStateM.Result.ok () { t with thread }) hdressed

/-- **Acts that do without registers take no notice of them.** -/
theorem Made.unaware {α : Type} {x : Act H α} (h : Made (Moving False False True) α x) :
    Unaware x := by
  induction h with
  | pure a => exact .pure a
  | prim h => exact unaware_moving h
  | bind _ _ hx hf => exact .bind hx hf

end Act

/-! ## 3. Calm statements -/

/-- Whether the statement does without registers, or only chooses among others. -/
def Stmt.isCalm : Stmt → Bool
  | .return | .endCall | .branch .. | .repeat .. | .while .. | .forever _ => true
  | s => s.isLight

/-- The statement does without registers, also in its expressions. -/
structure Stmt.Calm (s : Stmt) : Prop where
  isCalm : s.isCalm = true
  exprs : ∀ e ∈ s.exprs, e.Frees False

namespace Act

theorem Unaware.next : Unaware (Act.next (H := H)) := .pure _

/-- An event that is not waited for. -/
theorem Unaware.execEvent (send : Machine H → GroupId × Machine H) :
    Unaware (Act.execEvent false send) :=
  .bind (.ask send) fun _ => .ifSeated

variable [Host H]

theorem unaware_evalBool {e : Expr} (h : e.Frees False) : Unaware (evalBool (H := H) e) :=
  (made_evalBool h).working.moving.unaware

theorem unaware_evalNumber {e : Expr} (h : e.Frees False) : Unaware (evalNumber (H := H) e) :=
  (made_evalNumber h).working.moving.unaware

/-- **A calm statement takes no notice of the registers**, unless it ends a procedure. -/
theorem unaware_exec {s : Stmt} (hs : s.Calm) (hend : s ≠ .endCall) :
    Unaware (exec (H := H) s) := by
  have hplain (hp : s.isPlain = true) (hl : s.isLight = true) : Unaware (exec (H := H) s) := by
    obtain ⟨x, hx, heq⟩ := made_exec (H := H) hp hs.exprs (.inl hl) fun _ => trivial
    rw [heq]
    exact .bind hx.moving.unaware fun _ => .next
  have hcalm := hs.isCalm
  have hexpr : ∀ e ∈ s.exprs, e.Frees False := hs.exprs
  cases s with
  | endCall => exact absurd rfl hend
  | «return» | forever => exact .pure _
  | branch cond yes no =>
    exact .bind (unaware_evalBool (hexpr _ List.mem_cons_self)) fun _ => .pure _
  | «repeat» times body =>
    refine .bind (unaware_evalNumber (hexpr _ List.mem_cons_self)) fun count => ?_
    split
    · exact .pure _
    · exact .next
  | «while» cond body =>
    refine .bind (unaware_evalBool (hexpr _ List.mem_cons_self)) fun holds => ?_
    split
    · exact .pure _
    · exact .next
  | motion op =>
    have hglide : op = .glideStep → False := by
      rintro rfl
      cases hcalm
    exact .bind (made_execMotion op hexpr hglide).unaware fun _ => .next
  | broadcast message wait =>
    cases wait with
    | true => cases hcalm
    | false =>
      exact .bind (made_evalText (hexpr _ List.mem_cons_self)).working.moving.unaware
        fun _ => .execEvent _
  | switchBackdrop backdrop wait =>
    cases wait with
    | true => cases hcalm
    | false =>
      exact .bind (made_eval (hexpr _ List.mem_cons_self)).working.moving.unaware
        fun _ => .bind (.modifyMachine _) fun _ => .execEvent _
  | deleteClone =>
    refine .of_machine (fun id _ m => (if (m.deleteClone id).1 then .leave .detached else .onward [],
      (m.deleteClone id).2)) fun t => ?_
    simp only [exec, bind_apply, thread_apply, ask_apply]
    split <;> rfl
  | stopAll => exact .bind (.modifyMachine _) fun _ => .ifSeated
  | sound op =>
    cases op with
    | playUntilDone => cases hcalm
    | play | stopAll | setVolume | changeVolume => exact hplain rfl rfl
  | setVariable | changeVariable | list | looks | pen | resetTimer | createClone | stopOthers =>
    exact hplain rfl rfl
  | label | queue | forceQueue | save | restore | setRegister | call | ask | collectAnswer =>
    cases hcalm

/-- The end of a procedure does not depend on the registers that it had. -/
theorem exec_endCall_dress {t : Turn H} (h : t.thread.calls ≠ []) (rs : Registers)
    (saved : List Registers) : exec .endCall (t.dress rs saved) = exec .endCall t := by
  have hend : (t.dress rs saved).thread.endCall? = t.thread.endCall? :=
    Thread.endCall?_dress rs saved h
  rw [exec_endCall, exec_endCall, hend]
  cases hcalls : t.thread.endCall? with
  | some ended => rfl
  | none =>
    unfold Thread.endCall? at hcalls
    split at hcalls
    · rename_i hnil
      exact absurd hnil h
    · cases hcalls

end Act

end BlockScript
